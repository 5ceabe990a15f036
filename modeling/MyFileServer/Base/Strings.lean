import MyFileServer.Base.Runtime
import MyFileServer.Lib.Delimiter
import MyFileServer.Lib.Window
import Mathlib.Data.List.TakeWhile

/-!
# Strings

The functions of `std::string`, `std::stoi` and `std::to_string` that the
handler calls, and C strings in arrays of a fixed size.
-/

namespace MyFileServer

open Execution Delimiter Window

/-- The C string that `c_str()` points to: it ends at the first NUL. -/
def cstr (s : Bytes) : Bytes :=
  s.takeWhile (· ≠ 0)

def npos : ℕ := 2 ^ 64 - 1

def find (s pattern : Bytes) : ℕ :=
  let i := search pattern s
  if i = s.length then npos else i

def findLastOf (s : Bytes) (c : UInt8) : ℕ :=
  if c ∈ s then s.length - 1 - s.reverse.idxOf c else npos

/-- `s.substr(pos)`; `s.substr(0, n)`, which never throws, is `s.take n`. -/
def substr (s : Bytes) (pos : ℕ) : Exec Bytes :=
  if pos ≤ s.length then return s.drop pos else throw .outOfRange

/-- `s[i]`, which is NUL at the end of the string. -/
def charAt (s : Bytes) (i : ℕ) : Exec UInt8 :=
  if i ≤ s.length then return s.getD i 0 else throw .outOfRange

/-- `s + t` throws when the sum is too long for a string. -/
def concat (s t : Bytes) : Exec Bytes :=
  if s.length + t.length ≤ maxSize then return s ++ t else throw .lengthError

/-- Both exceptions of `stoi`, for a text without a number and for a number
outside the range of `int`, are the fault `outOfRange`. -/
def stoi (text : Bytes) : Exec ℤ :=
  let unsigned :=
    match text.dropWhile isspace with
    | 45 :: text => text
    | 43 :: text => text
    | text => text
  let value := strtol text
  if unsigned.takeWhile isdigit ≠ [] ∧ -2 ^ 31 ≤ value ∧ value < 2 ^ 31 then
    return value
  else
    throw .outOfRange

def to_string (i : ℤ) : Bytes :=
  if i < 0 then chr '-' :: decimal i.natAbs else decimal i.natAbs

theorem substr_eq_ok {s t : Bytes} {pos : ℕ} :
    substr s pos = .ok t ↔ pos ≤ s.length ∧ t = s.drop pos :=
  ite_eq_ok

theorem substr_append_eq_ok {front s t : Bytes} {pos : ℕ} :
    (do
      let rest ← substr s pos
      return front ++ rest : Exec Bytes) = .ok t ↔
      pos ≤ s.length ∧ t = front ++ s.drop pos := by
  simp only [bind_eq_ok, substr_eq_ok]
  constructor
  · intro h
    obtain ⟨rest, ⟨hlength, rfl⟩, ht⟩ := h
    exact ⟨hlength, (Except.ok.inj ht).symm⟩
  · intro h
    exact ⟨_, ⟨h.1, rfl⟩, congrArg _ h.2.symm⟩

theorem concat_eq_ok {s t r : Bytes} :
    concat s t = .ok r ↔ s.length + t.length ≤ maxSize ∧ r = s ++ t :=
  ite_eq_ok

theorem find_of_occurrence {word : Bytes} (hword : word ≠ [])
    (front back : Bytes) :
    find (front ++ word ++ back) word = search word (front ++ word ++ back) := by
  have hle := search_le_of_occurrence hword front back
  have hpos := List.length_pos_iff.mpr hword
  unfold find
  rw [if_neg]
  simp only [List.length_append]
  omega

section Cut

variable {c : UInt8} {front : Bytes} (hfront : c ∉ front)

include hfront

theorem forall_ne_of_notMem : ∀ b ∈ front, decide (b ≠ c) = true := by
  intro b hb
  simpa using fun h : b = c => hfront (h ▸ hb)

theorem takeWhile_ne_self : front.takeWhile (· ≠ c) = front :=
  List.takeWhile_eq_self_iff.mpr (forall_ne_of_notMem hfront)

theorem dropWhile_ne_self : front.dropWhile (· ≠ c) = [] :=
  List.dropWhile_eq_nil_iff.mpr (forall_ne_of_notMem hfront)

theorem takeWhile_ne_cons (back : Bytes) :
    (front ++ c :: back).takeWhile (· ≠ c) = front := by
  rw [List.takeWhile_append_of_pos (forall_ne_of_notMem hfront),
    List.takeWhile_cons_of_neg (by simp), List.append_nil]

theorem dropWhile_ne_cons (back : Bytes) :
    (front ++ c :: back).dropWhile (· ≠ c) = c :: back := by
  rw [List.dropWhile_append_of_pos (forall_ne_of_notMem hfront),
    List.dropWhile_cons_of_neg (by simp)]

end Cut

theorem cstr_of_notMem {s : Bytes} (hs : 0 ∉ s) : cstr s = s :=
  takeWhile_ne_self hs

theorem cstr_notMem (s : Bytes) : 0 ∉ cstr s := by
  intro hmem
  have hne := List.mem_takeWhile_imp hmem
  simp at hne

theorem cstr_append_of_notMem {s : Bytes} (hs : 0 ∉ s) (t : Bytes) :
    cstr (s ++ t) = s ++ cstr t :=
  List.takeWhile_append_of_pos (forall_ne_of_notMem hs)

theorem cstr_append_nul {s : Bytes} (hs : 0 ∉ s) (t : Bytes) :
    cstr (s ++ 0 :: t) = s :=
  takeWhile_ne_cons hs t

/-- What follows the first NUL does not matter. -/
theorem exists_cstr_append {s : Bytes} (hs : 0 ∈ s) :
    ∃ t, s = cstr s ++ 0 :: t := by
  have hsplit := List.takeWhile_append_dropWhile (p := (· ≠ 0)) (l := s)
  cases hrest : s.dropWhile (· ≠ 0) with
  | nil =>
      rw [List.dropWhile_eq_nil_iff] at hrest
      exact absurd (hrest 0 hs) (by simp)
  | cons c t =>
      have hhead := List.head?_dropWhile_not (p := (· ≠ 0)) s
      rw [hrest] at hhead hsplit
      have hc : c = 0 := by simpa using hhead
      rw [hc] at hsplit
      exact ⟨t, hsplit.symm⟩

theorem cstr_append_of_mem {s : Bytes} (hs : 0 ∈ s) (t : Bytes) :
    cstr (s ++ t) = cstr s := by
  obtain ⟨rest, hrest⟩ := exists_cstr_append hs
  conv_lhs => rw [hrest, List.append_assoc, List.cons_append]
  exact cstr_append_nul (cstr_notMem s) _

example : find (ascii "/download/a") (ascii "download") = 1 := by decide
example : findLastOf (ascii "a.tar.gz") (chr '.') = 5 := by decide
example : stoi (ascii " +12x") = .ok 12 := by decide
example : stoi (ascii "2147483648") = .error .outOfRange := by decide
example : to_string (-5) = ascii "-5" := by decide

/-! ## Arrays of characters -/

def arrayGet (array : Bytes) (i : ℕ) : Exec UInt8 :=
  match array[i]? with
  | some c => return c
  | none => throw .outOfRange

/-- Copy `data` over the array from index `i` on. -/
def arrayPut (array : Bytes) (i : ℕ) (data : Bytes) : Exec Bytes :=
  if i + data.length ≤ array.length then return overwrite array i data
  else throw .outOfRange

/-- `strcpy(&array[i], text)` for a text without NUL. -/
def strcpy (array : Bytes) (i : ℕ) (text : Bytes) : Exec Bytes :=
  arrayPut array i (text ++ [0])

theorem arrayPut_eq_ok {array data result : Bytes} {i : ℕ} :
    arrayPut array i data = .ok result ↔
      i + data.length ≤ array.length ∧ result = overwrite array i data :=
  ite_eq_ok

theorem arrayGet_eq_ok {array : Bytes} {i : ℕ} {c : UInt8} :
    arrayGet array i = .ok c ↔ array[i]? = some c := by
  unfold arrayGet
  cases array[i]? with
  | none => simp [throw, throwThe, MonadExceptOf.throw]
  | some a => simp [pure, Except.pure]

end MyFileServer
