import Mathlib.Data.List.Basic
import Mathlib.Tactic

/-!
# Windows of a vector

A growable buffer keeps its content in a window `[i, j)` of a longer vector.
The operations on such a buffer are a copy into the vector, a resize, a
reversal of a part, and a move of the two ends; this file says what each of
them does to the content of a window.
-/

namespace Window

variable {α : Type*}

/-- The elements with indices in `[i, j)`. -/
def window (store : List α) (i j : ℕ) : List α :=
  (store.drop i).take (j - i)

/-- Copy `data` over the elements from index `i` on. -/
def overwrite (store : List α) (i : ℕ) (data : List α) : List α :=
  store.take i ++ data ++ store.drop (i + data.length)

/-- Change the length to `n`, filling up with `fill`. -/
def resize (store : List α) (n : ℕ) (fill : α) : List α :=
  store.take n ++ List.replicate (n - store.length) fill

theorem length_window {store : List α} {i j : ℕ} (hj : j ≤ store.length) :
    (window store i j).length = j - i := by
  simp only [window, List.length_take, List.length_drop]
  omega

@[simp] theorem window_self (store : List α) (i : ℕ) :
    window store i i = [] := by
  simp [window]

theorem window_one {store : List α} {i : ℕ} {a : α}
    (ha : store[i]? = some a) : window store i (i + 1) = [a] := by
  obtain ⟨hlt, rfl⟩ := List.getElem?_eq_some_iff.mp ha
  rw [window, Nat.add_sub_cancel_left, List.take_one_drop_eq_of_lt_length hlt]
  rfl

theorem window_drop (store : List α) (i j k : ℕ) :
    window store (i + k) j = (window store i j).drop k := by
  rw [window, window, List.drop_take, List.drop_drop, Nat.sub_add_eq]

theorem window_take {store : List α} {i j k : ℕ} (hk : i + k ≤ j) :
    window store i (i + k) = (window store i j).take k := by
  rw [window, window, List.take_take]
  congr 1
  omega

@[simp] theorem length_overwrite
    {store data : List α} {i : ℕ} (hfit : i + data.length ≤ store.length) :
    (overwrite store i data).length = store.length := by
  simp only [overwrite, List.length_append, List.length_take,
    List.length_drop]
  omega

theorem take_overwrite {store data : List α} {i : ℕ} (hi : i ≤ store.length) :
    (overwrite store i data).take i = store.take i := by
  unfold overwrite
  rw [List.append_assoc, List.take_append_of_le_length (by simp; omega),
    List.take_take, min_self]

theorem take_overwrite_back {store data : List α} {i n : ℕ}
    (hi : i ≤ store.length) (hn : n = i + data.length) :
    (overwrite store i data).take n = store.take i ++ data := by
  unfold overwrite
  apply List.take_left'
  simp only [List.length_append, List.length_take]
  omega

/-- Two copies, the second right behind the first. -/
theorem overwrite_overwrite {store first second : List α} {i : ℕ}
    (hi : i + first.length ≤ store.length) :
    overwrite (overwrite store i first) (i + first.length) second =
      overwrite store i (first ++ second) := by
  have hfront : (store.take i ++ first).length = i + first.length := by
    simp only [List.length_append, List.length_take]
    omega
  have htake : (overwrite store i first).take (i + first.length) = store.take i ++ first :=
    List.take_left' hfront
  have hdrop : (overwrite store i first).drop (i + first.length + second.length) =
      store.drop (i + (first ++ second).length) := by
    rw [← List.drop_drop, overwrite, List.drop_left' hfront, List.drop_drop, List.length_append,
      Nat.add_assoc]
  rw [overwrite, htake, hdrop, overwrite, List.append_assoc (store.take i)]

@[simp] theorem length_resize (store : List α) (n : ℕ) (fill : α) :
    (resize store n fill).length = n := by
  simp only [resize, List.length_append, List.length_take,
    List.length_replicate]
  omega

theorem window_resize
    {store : List α} {i j n : ℕ} (hj : j ≤ store.length)
    (hn : store.length ≤ n) (fill : α) :
    window (resize store n fill) i j = window store i j := by
  rw [resize, List.take_of_length_le hn]
  by_cases hi : i ≤ store.length
  · rw [window, window, List.drop_append_of_le_length hi,
      List.take_append_of_le_length (by simp only [List.length_drop]; omega)]
  · rw [window, window, show j - i = 0 by omega, List.take_zero, List.take_zero]

theorem window_overwrite_back
    {store data : List α} {i j : ℕ} (hij : i ≤ j) (hj : j ≤ store.length) :
    window (overwrite store j data) i (j + data.length) =
      window store i j ++ data := by
  have htake : (store.take j).length = j := by simp [hj]
  rw [window, overwrite, List.append_assoc,
    List.drop_append_of_le_length (by omega), ← List.append_assoc,
    List.take_append_of_le_length (by simp; omega),
    List.take_of_length_le (by simp; omega), window, List.drop_take]

theorem window_overwrite_front
    {store data : List α} {i j : ℕ} (hdata : data.length ≤ i) (hij : i ≤ j)
    (hj : j ≤ store.length) :
    window (overwrite store (i - data.length) data) (i - data.length) j =
      data ++ window store i j := by
  have htake : (store.take (i - data.length)).length = i - data.length := by
    simp only [List.length_take]
    omega
  rw [window, overwrite, List.append_assoc, List.drop_left' htake,
    List.take_append, List.take_of_length_le (by omega), window,
    show i - data.length + data.length = i by omega,
    show j - (i - data.length) - data.length = j - i by omega]

theorem window_overwrite_self
    {store : List α} {i j k : ℕ} (hj : j ≤ store.length)
    (hk : k + (j - i) ≤ store.length) :
    window (overwrite store k (window store i j)) k (k + (j - i)) =
      window store i j := by
  have htake : (store.take k).length = k := by
    simp only [List.length_take]
    omega
  rw [window, overwrite, List.append_assoc, List.drop_left' htake,
    Nat.add_sub_cancel_left, List.take_left' (length_window hj)]

/-- `std::reverse` on the elements with indices in `[i, j)`. -/
def reverseRange (store : List α) (i j : ℕ) : List α :=
  store.take i ++ (window store i j).reverse ++ store.drop j

theorem length_reverseRange {store : List α} {i j : ℕ} (hij : i ≤ j) (hj : j ≤ store.length) :
    (reverseRange store i j).length = store.length := by
  simp only [reverseRange, List.length_append, List.length_reverse, length_window hj,
    List.length_take, List.length_drop]
  omega

theorem reverseRange_overwrite {store first second : List α} {i : ℕ}
    (hi : i + first.length ≤ store.length) :
    reverseRange (overwrite store i (first ++ second)) i (i + first.length) =
      overwrite store i (first.reverse ++ second) := by
  have htake : (store.take i).length = i := by
    rw [List.length_take]
    omega
  have hsplit : overwrite store i (first ++ second) =
      store.take i ++ (first ++ (second ++ store.drop (i + (first ++ second).length))) := by
    simp only [overwrite, List.append_assoc]
  have hback : (overwrite store i (first ++ second)).drop i =
      first ++ (second ++ store.drop (i + (first ++ second).length)) := by
    rw [hsplit, List.drop_left' htake]
  have hwindow : window (overwrite store i (first ++ second)) i (i + first.length) = first := by
    rw [window, hback, Nat.add_sub_cancel_left, List.take_left]
  have hfront : (overwrite store i (first ++ second)).take i = store.take i := by
    rw [hsplit, List.take_left' htake]
  have hrest : (overwrite store i (first ++ second)).drop (i + first.length) =
      second ++ store.drop (i + (first ++ second).length) := by
    rw [← List.drop_drop, hback, List.drop_left]
  rw [reverseRange, hfront, hwindow, hrest, overwrite]
  simp only [List.append_assoc, List.length_append, List.length_reverse]

end Window
