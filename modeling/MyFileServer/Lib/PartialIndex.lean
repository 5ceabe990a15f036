import Mathlib.Logic.Function.Basic
import Mathlib.Tactic

/-!
# Maps that index a relation

A partial map finds under every key the value that is filed there.  What is
filed may change for the values of one owner, who uses one key; then one entry
of the map has to change.
-/

namespace PartialIndex

variable {κ α : Type}

def Indexes (m : κ → Option α) (filed : κ → α → Prop) : Prop :=
  ∀ key a, m key = some a ↔ filed key a

theorem Indexes.congr {m : κ → Option α} {filed filed' : κ → α → Prop} (hm : Indexes m filed)
    (hsame : ∀ key a, filed' key a ↔ filed key a) : Indexes m filed' :=
  fun key a => (hm key a).trans (hsame key a).symm

/-- What an index says of a key that at most one owner uses. -/
theorem Indexes.eq_none {m : κ → Option α} {filed : κ → α → Prop} (hm : Indexes m filed)
    {key : κ} (hfree : ∀ a, ¬ filed key a) : m key = none := by
  cases hentry : m key with
  | none => rfl
  | some a => exact absurd ((hm key a).mp hentry) (hfree a)

theorem Indexes.update [DecidableEq κ] {m : κ → Option α} {filed filed' : κ → α → Prop}
    (hm : Indexes m filed) (owned : α → Prop) {key : κ} {entry : Option α}
    (hothers : ∀ k a, ¬ owned a → (filed' k a ↔ filed k a))
    (howner : ∀ a, filed key a → owned a)
    (hbefore : ∀ k a, owned a → filed k a → k = key)
    (hafter : ∀ k a, owned a → (filed' k a ↔ k = key ∧ entry = some a))
    (hentry : ∀ a, entry = some a → owned a) :
    Indexes (Function.update m key entry) filed' := by
  intro k a
  by_cases hkey : k = key
  · rw [hkey, Function.update_self]
    by_cases howned : owned a
    · rw [hafter key a howned]
      exact ⟨fun h => ⟨rfl, h⟩, fun h => h.2⟩
    · rw [hothers key a howned]
      exact iff_of_false (mt (hentry a) howned) (mt (howner a) howned)
  · rw [Function.update_of_ne hkey, hm k a]
    by_cases howned : owned a
    · rw [hafter k a howned]
      exact iff_of_false (fun h => hkey (hbefore k a howned h)) (fun h => hkey h.1)
    · exact (hothers k a howned).symm

/-- The same for a family of maps of which one changes. -/
theorem Indexes.update_family {ι : Type} [DecidableEq ι] [DecidableEq κ]
    {m m' : ι → κ → Option α} {filed filed' : ι → κ → α → Prop}
    (hm : ∀ place, Indexes (m place) (filed place)) (owned : α → Prop) {place : ι} {key : κ}
    {entry : Option α}
    (hupdate : ∀ i, m' i = if i = place then Function.update (m i) key entry else m i)
    (hothers : ∀ i k a, ¬ owned a → (filed' i k a ↔ filed i k a))
    (howner : ∀ a, filed place key a → owned a)
    (hbefore : ∀ i k a, owned a → filed i k a → i = place ∧ k = key)
    (hafter : ∀ i k a, owned a → (filed' i k a ↔ (i = place ∧ k = key) ∧ entry = some a))
    (hentry : ∀ a, entry = some a → owned a) (i : ι) : Indexes (m' i) (filed' i) := by
  rw [hupdate]
  by_cases hplace : i = place
  · rw [if_pos hplace]
    subst hplace
    refine (hm i).update owned (hothers i) howner ?_ ?_ hentry
    · exact fun k a howned hfiled => (hbefore i k a howned hfiled).2
    · intro k a howned
      rw [hafter i k a howned, and_iff_right rfl]
  · rw [if_neg hplace]
    refine (hm i).congr ?_
    intro k a
    by_cases howned : owned a
    · rw [hafter i k a howned]
      exact iff_of_false (fun h => hplace h.1.1) fun h => hplace (hbefore i k a howned h).1
    · exact hothers i k a howned

end PartialIndex
