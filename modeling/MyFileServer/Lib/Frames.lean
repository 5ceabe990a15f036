import Mathlib.Tactic

/-!
# Streams of frames

A stream that holds one frame behind another.  When the reader of one frame
finds its end in front of what follows it, reading again and again gives back
the frames.
-/

namespace Frames

variable {α β γ : Type}

/-- Read frames off the stream until it is empty; every frame takes a unit of
fuel. -/
def readAll [DecidableEq α] (read : List α → Option (β × List α)) :
    ℕ → List α → Option (List β)
  | 0, _ => none
  | fuel + 1, stream =>
      if stream = [] then some []
      else do
        let (value, rest) ← read stream
        let values ← readAll read fuel rest
        return value :: values

variable [DecidableEq α] {read : List α → Option (β × List α)} {frame : γ → List α}
  {value : γ → β}

/-- The reader may need to see where the stream ends, so its condition names
what follows the frame. -/
theorem readAll_flatMap {items : List γ} (hnonempty : ∀ item ∈ items, frame item ≠ [])
    (hread : ∀ before item after, items = before ++ item :: after →
      read (frame item ++ after.flatMap frame) = some (value item, after.flatMap frame))
    {fuel : ℕ} (hfuel : items.length < fuel) :
    readAll read fuel (items.flatMap frame) = some (items.map value) := by
  induction items generalizing fuel with
  | nil =>
      obtain ⟨fuel, rfl⟩ := Nat.exists_eq_add_one_of_ne_zero (Nat.ne_zero_of_lt hfuel)
      rfl
  | cons item items ih =>
      obtain ⟨fuel, rfl⟩ := Nat.exists_eq_add_one_of_ne_zero (Nat.ne_zero_of_lt hfuel)
      have hsplit := List.forall_mem_cons.mp hnonempty
      have hstream : (item :: items).flatMap frame ≠ [] := by
        rw [List.flatMap_cons]
        exact List.append_ne_nil_of_left_ne_nil hsplit.1 _
      have hfirst := hread [] item items rfl
      have hrest := ih hsplit.2
        (fun before item' after heq => hread (item :: before) item' after (by rw [heq]; rfl))
        (Nat.lt_of_succ_lt_succ hfuel)
      unfold readAll
      rw [if_neg hstream, List.flatMap_cons, hfirst]
      simp only [bind, Option.bind, hrest]
      rfl

omit [DecidableEq α] in
theorem length_le_length_flatMap {items : List γ}
    (hnonempty : ∀ item ∈ items, frame item ≠ []) :
    items.length ≤ (items.flatMap frame).length := by
  induction items with
  | nil => exact le_rfl
  | cons item items ih =>
      have hsplit := List.forall_mem_cons.mp hnonempty
      have hpos := List.length_pos_of_ne_nil hsplit.1
      rw [List.flatMap_cons, List.length_append, List.length_cons]
      have htail := ih hsplit.2
      omega

end Frames
