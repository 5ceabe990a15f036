import MyFileServer.Base.Strings
import Mathlib.Tactic

/-!
# Decimal numbers

What `atoi` and a reader of digits make of a number that is written in
decimal.
-/

namespace MyFileServer

open Execution

def digit (d : ℕ) : UInt8 := UInt8.ofNat (48 + d)

theorem toNat_digit {d : ℕ} (hd : d < 10) : (digit d).toNat = 48 + d := by
  unfold digit
  rw [UInt8.toNat_ofNat']
  omega

theorem isdigit_digit {d : ℕ} (hd : d < 10) : isdigit (digit d) = true := by
  have hvalue := toNat_digit hd
  unfold isdigit
  simp only [Bool.and_eq_true, decide_eq_true_eq, UInt8.le_iff_toNat_le, hvalue]
  simp only [UInt8.reduceToNat]
  omega

theorem decimal_eq (n : ℕ) :
    decimal n =
      if n < 10 then [digit n] else decimal (n / 10) ++ [digit (n % 10)] := by
  have hchar (d : ℕ) (hd : d < 10) :
      UInt8.ofNat (Nat.digitChar d).toNat = digit d := by
    interval_cases d <;> rfl
  unfold decimal
  rw [Nat.toDigits_eq_if (by decide)]
  split
  next hn => rw [List.map_singleton, hchar n hn]
  next => rw [List.map_append, List.map_singleton, hchar _ (Nat.mod_lt n (by decide))]

theorem isdigit_of_mem_decimal {n : ℕ} {c : UInt8} (hc : c ∈ decimal n) :
    isdigit c = true := by
  induction n using Nat.strong_induction_on with
  | _ n ih =>
      rw [decimal_eq] at hc
      split at hc
      next hn =>
        rw [List.mem_singleton.mp hc]
        exact isdigit_digit hn
      next hn =>
        rcases List.mem_append.mp hc with hfront | hlast
        · exact ih (n / 10) (Nat.div_lt_self (by omega) (by decide)) hfront
        · rw [List.mem_singleton.mp hlast]
          exact isdigit_digit (Nat.mod_lt n (by decide))

/-- The value of a text of digits, as `strtol` adds it up. -/
def digitsValue (digits : Bytes) : ℕ :=
  digits.foldl (fun value c => value * 10 + (c.toNat - 48)) 0

theorem digitsValue_decimal (n : ℕ) : digitsValue (decimal n) = n := by
  induction n using Nat.strong_induction_on with
  | _ n ih =>
      rw [decimal_eq]
      split
      next hn => simp [digitsValue, toNat_digit hn]
      next hn =>
        have hfront := ih (n / 10) (Nat.div_lt_self (by omega) (by decide))
        have hlast : n % 10 < 10 := Nat.mod_lt n (by decide)
        unfold digitsValue at hfront ⊢
        rw [List.foldl_append, hfront]
        simp only [List.foldl_cons, List.foldl_nil, toNat_digit hlast]
        omega

theorem decimal_injective : Function.Injective decimal := by
  intro m n h
  rw [← digitsValue_decimal m, h, digitsValue_decimal]

theorem decimal_ne_nil (n : ℕ) : decimal n ≠ [] := by
  rw [decimal_eq]
  split <;> simp

theorem length_decimal_le {n k : ℕ} (hk : 0 < k) (hn : n < 10 ^ k) :
    (decimal n).length ≤ k := by
  unfold decimal
  rw [List.length_map]
  exact Nat.toDigits_length 10 n k hk hn

theorem to_string_eq_decimal_iff {i : ℤ} {n : ℕ} :
    to_string i = decimal n ↔ i = n := by
  unfold to_string
  split
  next hneg =>
    apply iff_of_false
    · intro h
      have hdash : chr '-' ∈ decimal n := by
        rw [← h]
        simp
      exact absurd (isdigit_of_mem_decimal hdash) (by decide)
    · omega
  next hneg =>
    rw [decimal_injective.eq_iff]
    omega

theorem not_isspace_of_isdigit {c : UInt8} (hc : isdigit c = true) :
    isspace c = false := by
  unfold isdigit at hc
  unfold isspace
  simp only [Bool.and_eq_true, decide_eq_true_eq, UInt8.le_iff_toNat_le] at hc
  simp only [Bool.or_eq_false_iff, beq_eq_false_iff_ne, ne_eq, Bool.and_eq_false_iff,
    decide_eq_false_iff_not, UInt8.le_iff_toNat_le, ← UInt8.toNat_inj]
  simp only [UInt8.reduceToNat] at hc ⊢
  omega

/-- A number as a client writes it, perhaps with zeros in front. -/
structure IsNumber (text : Bytes) : Prop where
  nonempty : text ≠ []
  digits : ∀ c ∈ text, isdigit c = true

theorem isNumber_decimal (n : ℕ) : IsNumber (decimal n) where
  nonempty := decimal_ne_nil n
  digits := fun _ hc => isdigit_of_mem_decimal hc

namespace IsNumber

variable {text : Bytes} (hnumber : IsNumber text)

include hnumber

theorem takeWhile_isdigit : text.takeWhile isdigit = text :=
  List.takeWhile_eq_self_iff.mpr hnumber.digits

/-- It starts with no sign. -/
theorem exists_cons :
    ∃ c rest, text = c :: rest ∧ isdigit c = true ∧ c ≠ 45 ∧ c ≠ 43 := by
  obtain ⟨c, rest, htext⟩ := List.exists_cons_of_ne_nil hnumber.nonempty
  have hdigit := hnumber.digits c (by simp [htext])
  refine ⟨c, rest, htext, hdigit, ?_, ?_⟩
  · rintro rfl
    exact absurd hdigit (by decide)
  · rintro rfl
    exact absurd hdigit (by decide)

theorem dropWhile_isspace : text.dropWhile isspace = text := by
  obtain ⟨c, rest, rfl, hfirst, _⟩ := hnumber.exists_cons
  rw [List.dropWhile_cons_of_neg]
  rw [not_isspace_of_isdigit hfirst]
  decide

theorem notMem_of_not_isdigit {c : UInt8} (hc : isdigit c = false) : c ∉ text := by
  intro hmem
  rw [hnumber.digits c hmem] at hc
  cases hc

theorem strtol_eq : strtol text = min (digitsValue text : ℤ) (2 ^ 63 - 1) := by
  have hdigits := hnumber.takeWhile_isdigit
  have hspace := hnumber.dropWhile_isspace
  obtain ⟨c, rest, rfl, _, hminus, hplus⟩ := hnumber.exists_cons
  unfold strtol
  simp only [hspace]
  split
  next text hsign => exact absurd (List.cons.inj hsign).1 hminus
  next text hsign => exact absurd (List.cons.inj hsign).1 hplus
  next =>
    rw [hdigits]
    rfl

/-- `stoi` throws for a number that is no `int`. -/
theorem stoi_eq_ok {i : ℤ} :
    stoi text = .ok i ↔ digitsValue text < 2 ^ 31 ∧ i = digitsValue text := by
  have hvalue := hnumber.strtol_eq
  have hdigits := hnumber.takeWhile_isdigit
  have hspace := hnumber.dropWhile_isspace
  have hne := hnumber.nonempty
  obtain ⟨c, rest, rfl, _, hminus, hplus⟩ := hnumber.exists_cons
  unfold stoi
  simp only [hspace, hvalue]
  split
  next text hsign => exact absurd (List.cons.inj hsign).1 hminus
  next text hsign => exact absurd (List.cons.inj hsign).1 hplus
  next =>
    rw [hdigits]
    refine ite_eq_ok.trans ?_
    constructor
    · intro h
      obtain ⟨⟨_, _, hhigh⟩, rfl⟩ := h
      constructor <;> omega
    · intro h
      obtain ⟨hsmall, rfl⟩ := h
      refine ⟨⟨hne, ?_, ?_⟩, ?_⟩ <;> omega

end IsNumber

theorem strtol_decimal (n : ℕ) : strtol (decimal n) = min (n : ℤ) (2 ^ 63 - 1) := by
  rw [(isNumber_decimal n).strtol_eq, digitsValue_decimal]

theorem atoi_decimal (n : ℕ) :
    atoi (decimal n) = Int.bmod (min (n : ℤ) (2 ^ 63 - 1)) (2 ^ 32) := by
  unfold atoi
  rw [strtol_decimal]

/-! ## The texts that `stoi` reads -/

def signedValue (sign digits : Bytes) : ℤ :=
  if sign = [45] then -(digitsValue digits : ℤ) else digitsValue digits

/-- Blanks, a sign or none, and the digits of an `int`; what follows them does
not matter. -/
def NamesInt (text : Bytes) : Prop :=
  ∃ blanks sign digits rest, text = blanks ++ (sign ++ (digits ++ rest)) ∧
    (∀ c ∈ blanks, isspace c = true) ∧ (sign = [45] ∨ sign = [43] ∨ sign = []) ∧
    IsNumber digits ∧ (∀ c ∈ rest.head?, isdigit c = false) ∧
    -2 ^ 31 ≤ signedValue sign digits ∧ signedValue sign digits < 2 ^ 31

theorem stoi_returns_of_sign {text sign unsigned : Bytes}
    (htext : text.dropWhile isspace = sign ++ unsigned)
    (hsign : sign = [45] ∨ sign = [43] ∨
      (sign = [] ∧ ∀ rest, unsigned ≠ 45 :: rest ∧ unsigned ≠ 43 :: rest)) :
    Returns (stoi text) ↔
      unsigned.takeWhile isdigit ≠ [] ∧
        -2 ^ 31 ≤ signedValue sign (unsigned.takeWhile isdigit) ∧
        signedValue sign (unsigned.takeWhile isdigit) < 2 ^ 31 := by
  have hvalue (digits : Bytes) :
      digits.foldl (fun value c => value * 10 + (c.toNat - 48)) 0 = digitsValue digits := rfl
  have hreturns {p : Prop} [Decidable p] (i : ℤ) :
      Returns (if p then pure i else throw .outOfRange : Exec ℤ) ↔ p := by
    split
    next hp => exact iff_of_true (returns_pure i) hp
    next hp => exact iff_of_false (not_returns_error _) hp
  unfold stoi strtol signedValue
  simp only [htext, hvalue]
  rcases hsign with rfl | rfl | ⟨rfl, hplain⟩
  · simp only [List.singleton_append, if_true]
    rw [hreturns]
    apply and_congr_right
    intro _
    omega
  · simp only [List.singleton_append, Bool.false_eq_true, if_false]
    rw [hreturns, if_neg (by decide)]
    apply and_congr_right
    intro _
    omega
  · have hminus : ∀ rest, unsigned = 45 :: rest → False := fun rest => (hplain rest).1
    have hplus : ∀ rest, unsigned = 43 :: rest → False := fun rest => (hplain rest).2
    simp only [List.nil_append, Bool.false_eq_true, if_false]
    rw [hreturns, if_neg (by decide)]
    apply and_congr_right
    intro _
    omega

theorem stoi_returns_iff {text : Bytes} : Returns (stoi text) ↔ NamesInt text := by
  constructor
  · intro hreturns
    have hblanks : text.takeWhile isspace ++ text.dropWhile isspace = text :=
      List.takeWhile_append_dropWhile
    obtain ⟨sign, unsigned, hsign, htext⟩ : ∃ sign unsigned,
        (sign = [45] ∨ sign = [43] ∨
          (sign = [] ∧ ∀ rest, unsigned ≠ 45 :: rest ∧ unsigned ≠ 43 :: rest)) ∧
        text.dropWhile isspace = sign ++ unsigned := by
      by_cases hminus : ∃ rest, text.dropWhile isspace = 45 :: rest
      · obtain ⟨rest, hrest⟩ := hminus
        exact ⟨[45], rest, .inl rfl, hrest⟩
      by_cases hplus : ∃ rest, text.dropWhile isspace = 43 :: rest
      · obtain ⟨rest, hrest⟩ := hplus
        exact ⟨[43], rest, .inr (.inl rfl), hrest⟩
      · exact ⟨[], _, .inr (.inr ⟨rfl, fun rest =>
          ⟨fun h => hminus ⟨rest, h⟩, fun h => hplus ⟨rest, h⟩⟩⟩), rfl⟩
    obtain ⟨hne, hbounds⟩ := (stoi_returns_of_sign htext hsign).mp hreturns
    refine ⟨text.takeWhile isspace, sign, unsigned.takeWhile isdigit,
      unsigned.dropWhile isdigit, ?_, fun c hc => List.mem_takeWhile_imp hc, ?_, ?_, ?_,
      hbounds⟩
    · rw [List.takeWhile_append_dropWhile, ← htext, hblanks]
    · exact hsign.imp_right (Or.imp_right And.left)
    · exact ⟨hne, fun c hc => List.mem_takeWhile_imp hc⟩
    · intro c hc
      have hhead := List.head?_dropWhile_not isdigit unsigned
      rw [Option.mem_def.mp hc] at hhead
      simpa using hhead
  · intro h
    obtain ⟨blanks, sign, digits, rest, rfl, hblanks, hsign, hdigits, hrest, hbounds⟩ := h
    obtain ⟨c, more, hcons, hfirst, hminus, hplus⟩ := hdigits.exists_cons
    have htake : (digits ++ rest).takeWhile isdigit = digits := by
      rw [List.takeWhile_append_of_pos hdigits.digits]
      cases rest with
      | nil => simp
      | cons c rest => rw [List.takeWhile_cons_of_neg (by simp [hrest c rfl]), List.append_nil]
    have hdrop : (blanks ++ (sign ++ (digits ++ rest))).dropWhile isspace =
        sign ++ (digits ++ rest) := by
      rw [List.dropWhile_append_of_pos hblanks]
      rcases hsign with rfl | rfl | rfl
      · exact List.dropWhile_cons_of_neg (by decide)
      · exact List.dropWhile_cons_of_neg (by decide)
      · rw [List.nil_append, hcons, List.cons_append, List.dropWhile_cons_of_neg]
        simp [not_isspace_of_isdigit hfirst]
    have hsign' : sign = [45] ∨ sign = [43] ∨
        (sign = [] ∧ ∀ rest', digits ++ rest ≠ 45 :: rest' ∧ digits ++ rest ≠ 43 :: rest') := by
      refine hsign.imp_right (Or.imp_right fun hnone => ⟨hnone, fun rest' => ?_⟩)
      rw [hcons, List.cons_append]
      exact ⟨fun h => hminus (List.cons.inj h).1, fun h => hplus (List.cons.inj h).1⟩
    rw [stoi_returns_of_sign hdrop hsign', htake]
    exact ⟨hdigits.nonempty, hbounds⟩

/-! ## The text of an integer -/

theorem head_decimal_ne_zero {n : ℕ} (hn : 0 < n) : (decimal n).head? ≠ some (chr '0') := by
  induction n using Nat.strong_induction_on with
  | _ n ih =>
      rw [decimal_eq]
      split
      next hsmall =>
        intro hzero
        have hvalue := congrArg UInt8.toNat (Option.some.inj hzero)
        rw [toNat_digit hsmall] at hvalue
        change 48 + n = 48 at hvalue
        omega
      next hlarge =>
        rw [List.head?_append_of_ne_nil _ (decimal_ne_nil _)]
        exact ih (n / 10) (by omega) (by omega)

/-- A minus sign for a negative number only, and no zero in front of other
digits. -/
def IsCanonical (text : Bytes) (v : ℤ) : Prop :=
  ∃ digits, text = (if v < 0 then [chr '-'] else []) ++ digits ∧ IsNumber digits ∧
    (digits.head? = some (chr '0') → digits = [chr '0']) ∧ digitsValue digits = v.natAbs

theorem isCanonical_to_string (v : ℤ) : IsCanonical (to_string v) v := by
  refine ⟨decimal v.natAbs, ?_, isNumber_decimal _, ?_, digitsValue_decimal _⟩
  · unfold to_string
    split <;> rfl
  · intro hhead
    have hzero : v.natAbs = 0 := by
      by_contra hne
      exact head_decimal_ne_zero (Nat.pos_of_ne_zero hne) hhead
    rw [hzero]
    decide

/-- Reads a text that is a number from its first to its last byte. -/
def parseInteger (text : Bytes) : Option ℤ :=
  match text with
  | 45 :: digits =>
      if digits ≠ [] ∧ digits.all isdigit then some (-(digitsValue digits : ℤ)) else none
  | digits =>
      if digits ≠ [] ∧ digits.all isdigit then some (digitsValue digits : ℤ) else none

/-- Zeros in front do not matter. -/
theorem parseInteger_eq {digits : Bytes} {v : ℤ} (hnumber : IsNumber digits)
    (hvalue : digitsValue digits = v.natAbs) :
    parseInteger ((if v < 0 then [chr '-'] else []) ++ digits) = some v := by
  have hdigits : digits ≠ [] ∧ digits.all isdigit :=
    ⟨hnumber.nonempty, List.all_eq_true.mpr hnumber.digits⟩
  split_ifs with hneg
  · have hparse : parseInteger ([chr '-'] ++ digits) =
        if digits ≠ [] ∧ digits.all isdigit then some (-(digitsValue digits : ℤ)) else none := rfl
    rw [hparse, if_pos hdigits, hvalue]
    congr 1
    omega
  · obtain ⟨c, rest, rfl, _, hminus, _⟩ := hnumber.exists_cons
    rw [List.nil_append]
    unfold parseInteger
    split
    next more hcons => exact absurd (List.cons.inj hcons).1 hminus
    next =>
      rw [if_pos hdigits, hvalue]
      congr 1
      omega

theorem IsCanonical.parseInteger_eq {text : Bytes} {v : ℤ} (htext : IsCanonical text v) :
    parseInteger text = some v := by
  obtain ⟨digits, rfl, hnumber, _, hvalue⟩ := htext
  exact MyFileServer.parseInteger_eq hnumber hvalue

end MyFileServer
