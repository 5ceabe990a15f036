import MyFileServer.Lib.Execution
import Mathlib.Data.Int.DivMod

/-!
# What the C++ code takes from its runtime

Bytes and byte literals, the ways in which a call can fail to return, the
conversions between `size_t` and `int` on a 64-bit target, and the two
library functions of the request parser that look at characters, `isspace`
in the "C" locale and `atoi`.
-/

namespace MyFileServer

abbrev Bytes := List UInt8

def ascii (text : String) : Bytes :=
  text.toList.map fun c => UInt8.ofNat c.toNat

abbrev chr (c : Char) : UInt8 :=
  UInt8.ofNat c.toNat

/-- Why a call does not return: an access outside the bounds it has to keep,
a use of a null pointer, a thrown `std::length_error` (or `std::bad_alloc`),
or a loop without an exit. -/
inductive Fault
  | outOfRange
  | nullPointer
  | lengthError
  | diverges
  deriving DecidableEq, Repr

abbrev Exec := Except Fault

/-! ## Machine integers -/

/-- No object is larger than `PTRDIFF_MAX` bytes; growing a vector beyond it
throws. -/
@[irreducible] def maxSize : ℕ := 2 ^ 63 - 1

/-- Conversion of a `size_t` to `int`. -/
def toInt (n : ℕ) : ℤ := Int.bmod n (2 ^ 32)

/-- Conversion of an `int` to `size_t`. -/
def toSizeT (i : ℤ) : ℕ := (i % 2 ^ 64).toNat

/-- Sum of two values of type `size_t`. -/
def addSizeT (m n : ℕ) : ℕ := (m + n) % 2 ^ 64

theorem toSizeT_toInt_eq (n : ℕ) :
    toSizeT (toInt n) =
      if n % 2 ^ 32 < 2 ^ 31 then n % 2 ^ 32
      else 2 ^ 64 - (2 ^ 32 - n % 2 ^ 32) := by
  unfold toSizeT toInt
  rw [Int.bmod_def]
  split_ifs <;> omega

theorem toSizeT_toInt {n : ℕ} (hn : n < 2 ^ 31) : toSizeT (toInt n) = n := by
  rw [toSizeT_toInt_eq, if_pos] <;> omega

theorem toSizeT_toInt_eq_iff {n m : ℕ} (hle : n ≤ m) (hm : m < 2 ^ 63) :
    toSizeT (toInt n) = m ↔ n = m ∧ m < 2 ^ 31 := by
  rw [toSizeT_toInt_eq]
  split_ifs <;> omega

theorem addSizeT_eq {m n : ℕ} (h : m + n < 2 ^ 64) : addSizeT m n = m + n :=
  Nat.mod_eq_of_lt h

theorem lt_maxSize {n : ℕ} (hn : n < 2 ^ 63 - 1) : n < maxSize := by
  unfold maxSize
  exact hn

theorem maxSize_lt : maxSize < 2 ^ 64 := by
  unfold maxSize
  decide

theorem maxSize_lt_off64 : maxSize < 2 ^ 63 := by
  unfold maxSize
  decide

/-! ## Characters -/

/-- `isspace` in the "C" locale: blank, `\t`, `\n`, `\v`, `\f` and `\r`. -/
def isspace (c : UInt8) : Bool :=
  c == 32 || (9 ≤ c && c ≤ 13)

def isdigit (c : UInt8) : Bool :=
  48 ≤ c && c ≤ 57

/-- `strtol` in base 10.  A value outside the range of `long` is replaced by
the nearest bound.  The NUL that ends a C string is no digit, so the scan of
a `std::string` stops at an embedded NUL as well. -/
def strtol (text : Bytes) : ℤ :=
  let text := text.dropWhile isspace
  let (negative, text) :=
    match text with
    | 45 :: text => (true, text)
    | 43 :: text => (false, text)
    | text => (false, text)
  let value : ℕ := (text.takeWhile isdigit).foldl
    (fun value c => value * 10 + (c.toNat - 48)) 0
  if negative then max (-(value : ℤ)) (-2 ^ 63) else min (value : ℤ) (2 ^ 63 - 1)

/-- `atoi` truncates the result of `strtol` to 32 bits. -/
def atoi (text : Bytes) : ℤ :=
  Int.bmod (strtol text) (2 ^ 32)

def decimal (n : ℕ) : Bytes :=
  (Nat.toDigits 10 n).map fun c => UInt8.ofNat c.toNat

example : atoi (ascii " 12") = 12 := by decide
example : atoi (ascii "-3") = -3 := by decide
example : atoi (ascii "4294967297") = 1 := by decide
example : atoi (ascii "99999999999999999999") = -1 := by decide

end MyFileServer
