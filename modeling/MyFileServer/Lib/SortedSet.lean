import Mathlib.Data.List.Pairwise
import Mathlib.Order.Basic
import Mathlib.Tactic

/-!
# Sorted sets

A set that is kept as its elements in ascending order, with insertion and the
cut at a bound: the elements below it, and the set without them.
-/

@[ext]
structure SortedSet (α : Type*) [LinearOrder α] where
  elems : List α
  sorted : elems.Pairwise (· < ·)

namespace SortedSet

variable {α : Type*} [LinearOrder α]

def empty : SortedSet α := ⟨[], .nil⟩

instance : Membership α (SortedSet α) := ⟨fun s a => a ∈ s.elems⟩

theorem mem_def {s : SortedSet α} {a : α} : a ∈ s ↔ a ∈ s.elems := Iff.rfl

@[simp] theorem notMem_empty (a : α) : a ∉ (empty : SortedSet α) :=
  List.not_mem_nil

def insertElem (a : α) : List α → List α
  | [] => [a]
  | b :: l => if a < b then a :: b :: l else if a = b then b :: l else b :: insertElem a l

theorem mem_insertElem {a b : α} {l : List α} :
    b ∈ insertElem a l ↔ b = a ∨ b ∈ l := by
  induction l with
  | nil => simp [insertElem]
  | cons c l ih =>
      unfold insertElem
      split_ifs with hlt heq
      · simp
      · subst heq
        simp
      · rw [List.mem_cons, ih, List.mem_cons]
        tauto

theorem pairwise_insertElem {a : α} {l : List α} (hl : l.Pairwise (· < ·)) :
    (insertElem a l).Pairwise (· < ·) := by
  induction l with
  | nil => exact List.pairwise_singleton _ _
  | cons b l ih =>
      rcases List.pairwise_cons.mp hl with ⟨hb, htail⟩
      unfold insertElem
      split_ifs with hlt heq
      · refine List.pairwise_cons.mpr ⟨?_, hl⟩
        intro c hc
        rcases List.mem_cons.mp hc with rfl | hc
        · exact hlt
        · exact hlt.trans (hb c hc)
      · exact hl
      · refine List.pairwise_cons.mpr ⟨?_, ih htail⟩
        intro c hc
        rcases mem_insertElem.mp hc with rfl | hc
        · exact lt_of_le_of_ne (not_lt.mp hlt) (Ne.symm heq)
        · exact hb c hc

def insert (s : SortedSet α) (a : α) : SortedSet α :=
  ⟨insertElem a s.elems, pairwise_insertElem s.sorted⟩

@[simp] theorem mem_insert {s : SortedSet α} {a b : α} :
    b ∈ s.insert a ↔ b = a ∨ b ∈ s :=
  mem_insertElem

/-! ## The least element -/

def first (s : SortedSet α) : Option α := s.elems.head?

theorem first_eq_none {s : SortedSet α} : s.first = none ↔ ∀ a, a ∉ s := by
  rw [first, List.head?_eq_none_iff, List.eq_nil_iff_forall_not_mem]
  rfl

theorem first_eq_some {s : SortedSet α} {a : α} :
    s.first = some a ↔ a ∈ s ∧ ∀ b ∈ s, a ≤ b := by
  rcases s with ⟨elems, hsorted⟩
  cases elems with
  | nil => simp [first, mem_def]
  | cons c l =>
      have hc := (List.pairwise_cons.mp hsorted).1
      rw [first, List.head?_cons, Option.some.injEq]
      constructor
      · rintro rfl
        refine ⟨List.mem_cons_self, ?_⟩
        intro b hb
        rcases List.mem_cons.mp hb with rfl | hb
        · exact le_rfl
        · exact (hc b hb).le
      · rintro ⟨ha, hleast⟩
        rcases List.mem_cons.mp ha with rfl | ha
        · rfl
        · exact absurd (hleast c List.mem_cons_self) (not_le.mpr (hc a ha))

/-! ## The cut at a bound -/

def below (s : SortedSet α) (x : α) : List α := s.elems.takeWhile (· < x)

def eraseBelow (s : SortedSet α) (x : α) : SortedSet α :=
  ⟨s.elems.dropWhile (· < x), s.sorted.sublist (List.dropWhile_sublist _)⟩

theorem takeWhile_eq_filter {l : List α} (hl : l.Pairwise (· < ·)) (x : α) :
    l.takeWhile (· < x) = l.filter (· < x) := by
  induction l with
  | nil => rfl
  | cons b l ih =>
      rcases List.pairwise_cons.mp hl with ⟨hb, htail⟩
      by_cases hx : b < x
      · simp [hx, ih htail]
      · have hnone : l.filter (· < x) = [] := by
          rw [List.filter_eq_nil_iff]
          intro c hc hcx
          exact hx ((hb c hc).trans (of_decide_eq_true hcx))
        simp [hx, hnone]

theorem mem_dropWhile {l : List α} (hl : l.Pairwise (· < ·)) {x a : α} :
    a ∈ l.dropWhile (· < x) ↔ a ∈ l ∧ x ≤ a := by
  induction l with
  | nil => simp
  | cons b l ih =>
      rcases List.pairwise_cons.mp hl with ⟨hb, htail⟩
      by_cases hx : b < x
      · rw [List.dropWhile_cons_of_pos (by simpa using hx), ih htail, List.mem_cons]
        constructor
        · exact fun ha => ⟨.inr ha.1, ha.2⟩
        · rintro ⟨rfl | ha, hxa⟩
          · exact absurd hx (not_lt.mpr hxa)
          · exact ⟨ha, hxa⟩
      · rw [List.dropWhile_cons_of_neg (by simpa using hx)]
        refine (and_iff_left_of_imp ?_).symm
        intro ha
        rcases List.mem_cons.mp ha with rfl | ha
        · exact not_lt.mp hx
        · exact (not_lt.mp hx).trans (hb a ha).le

theorem below_eq_filter (s : SortedSet α) (x : α) :
    s.below x = s.elems.filter (· < x) :=
  takeWhile_eq_filter s.sorted x

theorem mem_below {s : SortedSet α} {x a : α} :
    a ∈ s.below x ↔ a ∈ s ∧ a < x := by
  rw [below_eq_filter, List.mem_filter, decide_eq_true_iff]
  rfl

@[simp] theorem mem_eraseBelow {s : SortedSet α} {x a : α} :
    a ∈ s.eraseBelow x ↔ a ∈ s ∧ x ≤ a :=
  mem_dropWhile s.sorted

theorem eraseBelow_of_below_eq_nil {s : SortedSet α} {x : α}
    (hnone : s.below x = []) : s.eraseBelow x = s := by
  have hsplit : s.below x ++ (s.eraseBelow x).elems = s.elems :=
    List.takeWhile_append_dropWhile
  rw [hnone, List.nil_append] at hsplit
  exact SortedSet.ext hsplit

theorem sorted_below (s : SortedSet α) (x : α) :
    (s.below x).Pairwise (· < ·) :=
  s.sorted.sublist (List.takeWhile_sublist _)

end SortedSet
