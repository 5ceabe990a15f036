import MyFileServer.Base.Decimal
import MyFileServer.Logger.FixedBuffer

/-!
# The stream of a log record

`LogStream` stores what is inserted behind the cursor of a small buffer.  An
integer is written from its last digit on and then turned round; the digits
come from a table that also has them for negative remainders.  Every insertion
is stored whole or not at all.
-/

namespace MyFileServer

open Execution Window

def kSmallBuffer : ℕ := 4000

def kMaxNumericSize : ℕ := 48

/-! ## Integer types -/

/-- An integer type of C++.  `short` and `unsigned short` are converted to
`int` and `unsigned int`; `long` has 32 or 64 bits. -/
structure IntegerType where
  isSigned : Bool
  bits : ℕ
  bits_le : bits ≤ 64

namespace IntegerType

def min (T : IntegerType) : ℤ :=
  if T.isSigned then -2 ^ (T.bits - 1) else 0

def max (T : IntegerType) : ℤ :=
  if T.isSigned then 2 ^ (T.bits - 1) - 1 else 2 ^ T.bits - 1

abbrev Value (T : IntegerType) := {v : ℤ // T.min ≤ v ∧ v ≤ T.max}

def int : IntegerType := ⟨true, 32, by decide⟩

variable {T : IntegerType}

theorem natAbs_lt (v : T.Value) : v.1.natAbs < 2 ^ 64 ∧ (v.1 < 0 → v.1.natAbs ≤ 2 ^ 63) := by
  obtain ⟨hmin, hmax⟩ := v.2
  generalize v.1 = n at hmin hmax ⊢
  have hbits := T.bits_le
  have hhalf : (2 : ℤ) ^ (T.bits - 1) ≤ 2 ^ 63 := pow_le_pow_right₀ (by decide) (by omega)
  have hfull : (2 : ℤ) ^ T.bits ≤ 2 ^ 64 := pow_le_pow_right₀ (by decide) hbits
  unfold min at hmin
  unfold max at hmax
  cases hsigned : T.isSigned with
  | true =>
      rw [hsigned, if_pos rfl] at hmin hmax
      constructor <;> omega
  | false =>
      rw [hsigned, if_neg Bool.false_ne_true] at hmin hmax
      constructor <;> omega

theorem length_to_string_le (v : T.Value) : (to_string v).length ≤ 20 := by
  obtain ⟨hfull, hhalf⟩ := natAbs_lt v
  unfold to_string
  split_ifs with hneg
  · have hdigits := @length_decimal_le v.1.natAbs 19 (by decide)
      (lt_of_le_of_lt (hhalf hneg) (by decide))
    rw [List.length_cons]
    omega
  · exact length_decimal_le (by decide) (lt_trans hfull (by decide))

end IntegerType

/-! ## Formatting an integer -/

def digits : Bytes := ascii "9876543210123456789"

/-- `zero[remainder]`, where `zero` is `digits + 9`. -/
def zeroAt (remainder : ℤ) : Exec UInt8 :=
  if 0 ≤ 9 + remainder then arrayGet digits (9 + remainder).toNat else throw .outOfRange

theorem zeroAt_eq {remainder : ℤ} (hsmall : remainder.natAbs < 10) :
    zeroAt remainder = .ok (digit remainder.natAbs) := by
  have hlow : -9 ≤ remainder := by omega
  have hhigh : remainder ≤ 9 := by omega
  clear hsmall
  interval_cases remainder <;> rfl

theorem natAbs_tdiv_lt {num : ℤ} (hnum : num.tdiv 10 ≠ 0) :
    (num.tdiv 10).natAbs < num.natAbs := by
  have hquotient : (num.tdiv 10).natAbs = num.natAbs / 10 := Int.natAbs_tdiv num 10
  omega

section

variable {SIZE : ℕ}

/-- The loop of `formatInteger`. -/
def storeDigits (buffer : FixedBuffer SIZE) (cur : ℕ) (num : ℤ) :
    Exec (FixedBuffer SIZE × ℕ) := do
  let c ← zeroAt (num.tmod 10)
  let buffer ← buffer.put cur [c]
  if hmore : num.tdiv 10 ≠ 0 then storeDigits buffer (cur + 1) (num.tdiv 10)
  else return (buffer, cur + 1)
termination_by num.natAbs
decreasing_by exact natAbs_tdiv_lt hmore

def storeSign (buffer : FixedBuffer SIZE) (cur : ℕ) (num : ℤ) :
    Exec (FixedBuffer SIZE × ℕ) :=
  if num < 0 then do
    let buffer ← buffer.put cur [chr '-']
    return (buffer, cur + 1)
  else return (buffer, cur)

def formatInteger (buffer : FixedBuffer SIZE) (num : ℤ) : Exec (FixedBuffer SIZE) :=
  if kMaxNumericSize ≤ buffer.avail then do
    let start := buffer.cur_
    let (buffer, cur) ← storeDigits buffer start num
    let (buffer, cur) ← storeSign buffer cur num
    let buffer ← buffer.put cur [0]
    let buffer ← buffer.reverse start cur
    buffer.add (cur - start)
  else return buffer

theorem reverse_decimal (n : ℕ) :
    (decimal n).reverse =
      digit (n % 10) :: if n / 10 = 0 then [] else (decimal (n / 10)).reverse := by
  rw [decimal_eq]
  by_cases hn : n < 10
  · rw [if_pos hn, if_pos (by omega), Nat.mod_eq_of_lt hn]
    rfl
  · rw [if_neg hn, if_neg (by omega), List.reverse_append]
    rfl

theorem storeDigits_eq {buffer stored : FixedBuffer SIZE} {cur : ℕ} {num : ℤ}
    (hput : buffer.put cur (decimal num.natAbs).reverse = .ok stored) :
    storeDigits buffer cur num = .ok (stored, cur + (decimal num.natAbs).length) := by
  induction hsize : num.natAbs using Nat.strong_induction_on generalizing buffer cur num with
  | _ n ih =>
      have hquotient : (num.tdiv 10).natAbs = n / 10 := by
        rw [Int.natAbs_tdiv, hsize]
        rfl
      have hremainder : (num.tmod 10).natAbs = n % 10 := by
        rw [Int.natAbs_tmod, hsize]
        rfl
      have hchar := @zeroAt_eq (num.tmod 10) (by omega)
      have hlength : (decimal n).length = (decimal n).reverse.length := List.length_reverse.symm
      rw [hsize, reverse_decimal] at hput
      rw [hremainder] at hchar
      rw [storeDigits, hchar, hlength, reverse_decimal]
      by_cases hmore : n / 10 = 0
      · have hlast : ¬ num.tdiv 10 ≠ 0 := by omega
        rw [if_pos hmore] at hput ⊢
        refine bind_eq_ok.mpr ⟨_, rfl, bind_eq_ok.mpr ⟨_, hput, ?_⟩⟩
        rw [dif_neg hlast]
        rfl
      · have hnext : num.tdiv 10 ≠ 0 := by omega
        rw [if_neg hmore] at hput ⊢
        obtain ⟨mid, hfirst, hrest⟩ := FixedBuffer.put_split
          (show buffer.put cur ([digit (n % 10)] ++ (decimal (n / 10)).reverse) = _ from hput)
        rw [← hquotient, List.length_singleton] at hrest
        have htail := ih (n / 10) (by omega) hrest hquotient
        refine bind_eq_ok.mpr ⟨_, rfl, bind_eq_ok.mpr ⟨_, hfirst, ?_⟩⟩
        rw [dif_pos hnext, htail, List.length_cons, List.length_reverse]
        congr 2
        omega

/-- The text of an integer, stored backwards. -/
theorem reverse_to_string (num : ℤ) :
    (to_string num).reverse =
      (decimal num.natAbs).reverse ++ if num < 0 then [chr '-'] else [] := by
  unfold to_string
  split_ifs
  · rw [List.reverse_cons]
  · rw [List.append_nil]

theorem storeSign_eq {buffer stored : FixedBuffer SIZE} {cur : ℕ} {num : ℤ}
    (hput : buffer.put cur (if num < 0 then [chr '-'] else []) = .ok stored) :
    storeSign buffer cur num =
      .ok (stored, cur + (if num < 0 then [chr '-'] else []).length) := by
  unfold storeSign
  split_ifs at hput ⊢
  · exact bind_eq_ok.mpr ⟨_, hput, rfl⟩
  · obtain ⟨_, hdata, hcur⟩ := FixedBuffer.put_eq_ok.mp hput
    have hsame : stored = buffer := by
      refine FixedBuffer.ext (hdata.trans ?_) hcur
      simp [overwrite]
    rw [hsame]
    rfl

/-- With 48 bytes to spare the text and a NUL behind it are stored behind the
cursor, and the cursor moves behind the text. -/
theorem formatInteger_eq {buffer : FixedBuffer SIZE} {num : ℤ}
    (hroom : kMaxNumericSize ≤ buffer.avail) (hshort : (to_string num).length ≤ 20) :
    ∃ stored final, buffer.put buffer.cur_ (to_string num ++ [0]) = .ok stored ∧
      stored.add (to_string num).length = .ok final ∧
      formatInteger buffer num = .ok final := by
  have hcur := buffer.cur_lt
  have hlength : (to_string num).reverse.length = (to_string num).length := List.length_reverse
  have hfit : buffer.cur_ + (to_string num).length + 1 < SIZE := by
    simp only [kMaxNumericSize, FixedBuffer.avail] at hroom
    omega
  obtain ⟨turned, hturned⟩ := @FixedBuffer.exists_put _ buffer buffer.cur_
    ((to_string num).reverse ++ [0])
    (by rw [List.length_append, hlength, List.length_singleton]; omega)
  obtain ⟨signed, hsigned, hnul⟩ := FixedBuffer.put_split hturned
  have hreverse := FixedBuffer.reverse_put hturned
  rw [List.reverse_reverse] at hreverse
  obtain ⟨stored, hstored⟩ := @FixedBuffer.exists_put _ buffer buffer.cur_ (to_string num ++ [0])
    (by rw [List.length_append, List.length_singleton]; omega)
  have hmoved : stored.cur_ = buffer.cur_ := (FixedBuffer.put_eq_ok.mp hstored).2.2
  obtain ⟨final, hadd⟩ := @FixedBuffer.exists_add _ stored (to_string num).length
    (by rw [hmoved]; omega)
  refine ⟨stored, final, hstored, hadd, ?_⟩
  rw [reverse_to_string] at hsigned
  obtain ⟨unsigned, hdigits, hsign⟩ := FixedBuffer.put_split hsigned
  rw [List.length_reverse] at hsign
  have hend : buffer.cur_ + (decimal num.natAbs).length +
      (if num < 0 then [chr '-'] else []).length = buffer.cur_ + (to_string num).length := by
    rw [← hlength, reverse_to_string, List.length_append, List.length_reverse, Nat.add_assoc]
  have hsignStep := storeSign_eq hsign
  rw [hend] at hsignStep
  rw [hlength] at hnul hreverse
  rw [formatInteger, if_pos hroom]
  refine bind_eq_ok.mpr ⟨_, storeDigits_eq hdigits, ?_⟩
  refine bind_eq_ok.mpr ⟨_, hsignStep, ?_⟩
  refine bind_eq_ok.mpr ⟨_, hnul, ?_⟩
  refine bind_eq_ok.mpr ⟨_, hreverse.trans hstored, ?_⟩
  rw [Nat.add_sub_cancel_left]
  exact hadd

/-- The text is canonical and reads back as the number. -/
theorem formatInteger_exact {buffer : FixedBuffer SIZE} (T : IntegerType) (v : T.Value)
    (hroom : kMaxNumericSize ≤ buffer.avail) :
    ∃ text final, formatInteger buffer v = .ok final ∧ IsCanonical text v ∧
      parseInteger text = some v.1 ∧ text.length + 1 ≤ 21 ∧
      final.data_ = overwrite buffer.data_ buffer.cur_ (text ++ [0]) ∧
      final.cur_ = buffer.cur_ + text.length ∧ final.used = buffer.used ++ text := by
  have hshort := IntegerType.length_to_string_le v
  have hcanonical := isCanonical_to_string v.1
  obtain ⟨stored, final, hstored, hadd, hformat⟩ := formatInteger_eq hroom hshort
  obtain ⟨hcur, hused⟩ := FixedBuffer.used_put_add hstored hadd
  have hdata : final.data_ = stored.data_ := FixedBuffer.data_add hadd
  exact ⟨to_string v.1, final, hformat, hcanonical, hcanonical.parseInteger_eq, by omega,
    hdata.trans (FixedBuffer.put_eq_ok.mp hstored).2.1, hcur, hused⟩

/-- The least 64-bit value, in a buffer with 48 bytes left. -/
theorem formatInteger_exact_least :
    ∃ (v : (⟨true, 64, le_refl 64⟩ : IntegerType).Value) (buffer : FixedBuffer 60)
      (text : Bytes) (final : FixedBuffer 60),
      v.1 = -2 ^ 63 ∧ buffer.avail = 48 ∧ formatInteger buffer v = .ok final ∧
        IsCanonical text v ∧ final.used = buffer.used ++ text := by
  obtain ⟨v, hv⟩ : ∃ v : (⟨true, 64, le_refl 64⟩ : IntegerType).Value, v.1 = -2 ^ 63 :=
    ⟨⟨-2 ^ 63, by decide⟩, rfl⟩
  obtain ⟨buffer, havail⟩ : ∃ buffer : FixedBuffer 60, buffer.avail = 48 :=
    ⟨⟨List.replicate 60 0, 12, by decide, by decide⟩, by decide⟩
  obtain ⟨text, final, hformat, hcanonical, _, _, _, _, hused⟩ :=
    formatInteger_exact ⟨true, 64, le_refl 64⟩ v (le_of_eq havail.symm)
  exact ⟨v, buffer, text, final, hv, havail, hformat, hcanonical, hused⟩

end

/-! ## Insertions -/

/-- What `operator<<` takes.  A pointer to characters is null or points to a
string that ends at the first NUL; `length` of a `GeneralTemplate` is an
`int`. -/
inductive Insertion
  | integer (T : IntegerType) (v : T.Value)
  | char (c : UInt8)
  | cString (str : Option Bytes)
  | string (str : Bytes)
  | generalTemplate (data_ : Bytes) (len_ : ℤ)

/-- `append` of `len` bytes from the start of `data`. -/
def FixedBuffer.appendFrom {SIZE : ℕ} (buffer : FixedBuffer SIZE) (data : Bytes) (len : ℕ) :
    Exec (FixedBuffer SIZE) :=
  if len < buffer.avail then
    if len ≤ data.length then return buffer.append (data.take len) else throw .outOfRange
  else return buffer

structure LogStream where
  buffer_ : FixedBuffer kSmallBuffer

namespace LogStream

/-- A new stream, with the bytes that its array finds in memory. -/
def create (memory : {data : Bytes // data.length = kSmallBuffer}) : LogStream :=
  ⟨FixedBuffer.allocate (by decide) memory⟩

/-- `operator<<`. -/
def insert (stream : LogStream) : Insertion → Exec LogStream
  | .integer _ v => do
      let buffer_ ← formatInteger stream.buffer_ v
      return { buffer_ }
  | .char c => return { buffer_ := stream.buffer_.append [c] }
  | .cString (some str) => return { buffer_ := stream.buffer_.append (cstr str) }
  | .cString none => return { buffer_ := stream.buffer_.append (ascii "(null)") }
  | .string str => return { buffer_ := stream.buffer_.append str }
  | .generalTemplate data_ len_ => do
      let buffer_ ← stream.buffer_.appendFrom data_ (toSizeT len_)
      return { buffer_ }

def insertAll (stream : LogStream) (insertions : List Insertion) : Exec LogStream :=
  insertions.foldlM insert stream

end LogStream

namespace Insertion

def text : Insertion → Bytes
  | .integer _ v => to_string v
  | .char c => [c]
  | .cString (some str) => cstr str
  | .cString none => ascii "(null)"
  | .string str => str
  | .generalTemplate data_ len_ => data_.take (toSizeT len_)

/-- The insertion is stored if this much room is left. -/
def fits (room : ℕ) : Insertion → Bool
  | .integer _ _ => kMaxNumericSize ≤ room
  | .generalTemplate _ len_ => toSizeT len_ < room
  | insertion => insertion.text.length < room

/-- A `GeneralTemplate` has the length it reports, unless no buffer could hold
that many bytes. -/
def Readable : Insertion → Prop
  | .generalTemplate data_ len_ => toSizeT len_ < kSmallBuffer → toSizeT len_ ≤ data_.length
  | _ => True

/-- The texts of the insertions that find enough room, one after another. -/
def acceptedText : ℕ → List Insertion → Bytes
  | _, [] => []
  | room, insertion :: insertions =>
      if insertion.fits room then
        insertion.text ++ acceptedText (room - insertion.text.length) insertions
      else acceptedText room insertions

theorem acceptedText_cons {room : ℕ} {insertion : Insertion} {insertions : List Insertion}
    (hfits : insertion.fits room = true) :
    acceptedText room (insertion :: insertions) =
      insertion.text ++ acceptedText (room - insertion.text.length) insertions := by
  rw [acceptedText, if_pos hfits]

theorem acceptedText_skip {room : ℕ} {insertion : Insertion} {insertions : List Insertion}
    (hfits : insertion.fits room = false) :
    acceptedText room (insertion :: insertions) = acceptedText room insertions := by
  rw [acceptedText, if_neg (ne_true_of_eq_false hfits)]

end Insertion

namespace LogStream

/-- The insertion is stored behind the others, or nothing changes. -/
def Takes (stream : LogStream) (insertion : Insertion) (next : LogStream) : Prop :=
  if insertion.fits stream.buffer_.avail then
    next.buffer_.used = stream.buffer_.used ++ insertion.text
  else next = stream

theorem Takes.used_eq {stream next : LogStream} {insertion : Insertion}
    (htakes : stream.Takes insertion next)
    (hfits : insertion.fits stream.buffer_.avail = true) :
    next.buffer_.used = stream.buffer_.used ++ insertion.text := by
  unfold Takes at htakes
  rwa [if_pos hfits] at htakes

theorem Takes.eq_self {stream next : LogStream} {insertion : Insertion}
    (htakes : stream.Takes insertion next)
    (hfits : ¬ insertion.fits stream.buffer_.avail = true) : next = stream := by
  unfold Takes at htakes
  rwa [if_neg hfits] at htakes

theorem takes_self {stream : LogStream} {insertion : Insertion}
    (hfits : ¬ insertion.fits stream.buffer_.avail = true) : stream.Takes insertion stream := by
  unfold Takes
  rw [if_neg hfits]

theorem takes_append {stream : LogStream} {insertion : Insertion}
    (hfits : insertion.fits stream.buffer_.avail =
      decide (insertion.text.length < stream.buffer_.avail)) :
    stream.Takes insertion ⟨stream.buffer_.append insertion.text⟩ := by
  unfold Takes
  rw [hfits]
  split_ifs with hroom
  · exact FixedBuffer.used_append (of_decide_eq_true hroom)
  · rw [FixedBuffer.append_eq_self (by simpa using hroom)]

theorem insert_takes (stream : LogStream) {insertion : Insertion} (hread : insertion.Readable) :
    ∃ next, stream.insert insertion = .ok next ∧ stream.Takes insertion next := by
  cases insertion with
  | integer T v =>
      by_cases hroom : kMaxNumericSize ≤ stream.buffer_.avail
      · obtain ⟨stored, final, hstored, hadd, hformat⟩ :=
          formatInteger_eq hroom (IntegerType.length_to_string_le v)
        refine ⟨⟨final⟩, bind_eq_ok.mpr ⟨_, hformat, rfl⟩, ?_⟩
        unfold Takes Insertion.fits
        rw [if_pos (by simpa using hroom)]
        exact (FixedBuffer.used_put_add hstored hadd).2
      · refine ⟨stream, bind_eq_ok.mpr ⟨_, if_neg hroom, rfl⟩, takes_self ?_⟩
        simpa [Insertion.fits] using hroom
  | char c => exact ⟨_, rfl, takes_append rfl⟩
  | cString str =>
      cases str with
      | some str => exact ⟨_, rfl, takes_append rfl⟩
      | none => exact ⟨_, rfl, takes_append rfl⟩
  | string str => exact ⟨_, rfl, takes_append rfl⟩
  | generalTemplate data_ len_ =>
      have havail : stream.buffer_.avail ≤ kSmallBuffer := Nat.sub_le _ _
      by_cases hroom : toSizeT len_ < stream.buffer_.avail
      · have hlength := hread (lt_of_lt_of_le hroom havail)
        have htake : (data_.take (toSizeT len_)).length = toSizeT len_ := by
          rw [List.length_take, Nat.min_eq_left hlength]
        have happend : stream.buffer_.appendFrom data_ (toSizeT len_) =
            .ok (stream.buffer_.append (data_.take (toSizeT len_))) := by
          rw [FixedBuffer.appendFrom, if_pos hroom, if_pos hlength]
          rfl
        refine ⟨_, bind_eq_ok.mpr ⟨_, happend, rfl⟩, takes_append ?_⟩
        simp only [Insertion.fits, Insertion.text, htake]
      · refine ⟨stream, bind_eq_ok.mpr ⟨_, if_neg hroom, rfl⟩, takes_self ?_⟩
        simpa [Insertion.fits] using hroom

theorem Takes.avail_eq {stream next : LogStream} {insertion : Insertion}
    (htakes : stream.Takes insertion next)
    (hfits : insertion.fits stream.buffer_.avail = true) :
    next.buffer_.avail = stream.buffer_.avail - insertion.text.length := by
  have hlength := congrArg List.length (htakes.used_eq hfits)
  rw [List.length_append, FixedBuffer.length_used, FixedBuffer.length_used] at hlength
  unfold FixedBuffer.avail
  omega

theorem insertAll_append (stream : LogStream) (first second : List Insertion) :
    stream.insertAll (first ++ second) =
      stream.insertAll first >>= fun stream => stream.insertAll second :=
  List.foldlM_append

/-- After any insertions the bytes in front of the cursor are those from
before and the accepted texts. -/
theorem insertAll_used {stream : LogStream} {insertions : List Insertion}
    (hread : ∀ insertion ∈ insertions, insertion.Readable) :
    ∃ final, stream.insertAll insertions = .ok final ∧
      final.buffer_.used =
        stream.buffer_.used ++ Insertion.acceptedText stream.buffer_.avail insertions := by
  induction insertions generalizing stream with
  | nil => exact ⟨stream, rfl, by simp [Insertion.acceptedText]⟩
  | cons insertion insertions ih =>
      have hsplit := List.forall_mem_cons.mp hread
      obtain ⟨next, hinsert, htakes⟩ := stream.insert_takes hsplit.1
      obtain ⟨final, hrest, hused⟩ := @ih next hsplit.2
      refine ⟨final, ?_, ?_⟩
      · unfold insertAll
        rw [List.foldlM_cons]
        exact bind_eq_ok.mpr ⟨next, hinsert, hrest⟩
      · rw [hused, Insertion.acceptedText]
        split_ifs with hfits
        · rw [htakes.avail_eq hfits, htakes.used_eq hfits, List.append_assoc]
        · rw [htakes.eq_self hfits]

/-- The state of a new stream after `insertions`: the cursor is in front of
the end of the array, and what is in front of the cursor are the accepted
texts. -/
structure Holds (stream : LogStream) (insertions : List Insertion) : Prop where
  cur_lt : stream.buffer_.cur_ < kSmallBuffer
  used_eq : stream.buffer_.used = Insertion.acceptedText kSmallBuffer insertions

theorem insertAll_create (memory : {data : Bytes // data.length = kSmallBuffer})
    {insertions : List Insertion} (hread : ∀ insertion ∈ insertions, insertion.Readable) :
    ∃ final, (create memory).insertAll insertions = .ok final ∧ final.Holds insertions := by
  obtain ⟨final, hinsert, hused⟩ := @insertAll_used (create memory) insertions hread
  refine ⟨final, hinsert, final.buffer_.cur_lt, ?_⟩
  have hempty : (create memory).buffer_.used = [] := FixedBuffer.used_allocate _ memory
  have havail : (create memory).buffer_.avail = kSmallBuffer := Nat.sub_zero _
  rw [hused, hempty, havail, List.nil_append]

/-- A run that ends passes through a state before and a state behind each of
its insertions. -/
theorem insertAll_step {stream final : LogStream} {before after : List Insertion}
    {insertion : Insertion}
    (hrun : stream.insertAll (before ++ insertion :: after) = .ok final) :
    ∃ mid next, stream.insertAll before = .ok mid ∧ mid.insert insertion = .ok next ∧
      next.insertAll after = .ok final ∧
      stream.insertAll (before ++ [insertion]) = .ok next := by
  rw [insertAll_append] at hrun
  obtain ⟨mid, hbefore, hrest⟩ := bind_eq_ok.mp hrun
  unfold insertAll at hrest
  rw [List.foldlM_cons] at hrest
  obtain ⟨next, hinsert, hafter⟩ := bind_eq_ok.mp hrest
  refine ⟨mid, next, hbefore, hinsert, hafter, ?_⟩
  rw [insertAll_append]
  refine bind_eq_ok.mpr ⟨mid, hbefore, ?_⟩
  unfold insertAll
  rw [List.foldlM_cons]
  exact bind_eq_ok.mpr ⟨next, hinsert, rfl⟩

/-- No sequence of insertions leaves the array: each is stored whole behind
those accepted before it, or changes nothing. -/
theorem insertAll_holds (memory : {data : Bytes // data.length = kSmallBuffer})
    {insertions : List Insertion} (hread : ∀ insertion ∈ insertions, insertion.Readable) :
    ∃ final, (create memory).insertAll insertions = .ok final ∧ final.Holds insertions ∧
      ∀ before insertion after, insertions = before ++ insertion :: after →
        ∃ stream next, (create memory).insertAll before = .ok stream ∧
          stream.insert insertion = .ok next ∧ next.insertAll after = .ok final ∧
          stream.Holds before ∧ next.Holds (before ++ [insertion]) ∧
          stream.Takes insertion next := by
  obtain ⟨final, hrun, hfinal⟩ := insertAll_create memory hread
  refine ⟨final, hrun, hfinal, ?_⟩
  intro before insertion after hsplit
  subst hsplit
  obtain ⟨hbefore, hrest⟩ := List.forall_mem_append.mp hread
  have hinsertion := (List.forall_mem_cons.mp hrest).1
  obtain ⟨stream, next, hstream, hinsert, hafter, hnext⟩ := insertAll_step hrun
  obtain ⟨stream', hstream', hheld⟩ := insertAll_create memory hbefore
  obtain ⟨next', hinsert', htakes⟩ := stream.insert_takes hinsertion
  have hread' : ∀ piece ∈ before ++ [insertion], piece.Readable :=
    List.forall_mem_append.mpr ⟨hbefore, List.forall_mem_singleton.mpr hinsertion⟩
  obtain ⟨next'', hnext'', hheld'⟩ := insertAll_create memory hread'
  obtain rfl : stream = stream' := Except.ok.inj (hstream.symm.trans hstream')
  obtain rfl : next = next' := Except.ok.inj (hinsert.symm.trans hinsert')
  obtain rfl : next = next'' := Except.ok.inj (hnext.symm.trans hnext'')
  exact ⟨stream, next, hstream, hinsert, hafter, hheld, hheld', htakes⟩

/-- A string that is too long, between two pieces that are stored. -/
theorem insertAll_holds_dropped :
    ∃ memory long final, long.length = kSmallBuffer ∧
      (create memory).insertAll [.char (chr 'x'), .string long, .cString none] = .ok final ∧
      final.buffer_.used = ascii "x(null)" := by
  obtain ⟨long, hlong⟩ : ∃ long : Bytes, long.length = kSmallBuffer :=
    ⟨List.replicate kSmallBuffer 0, List.length_replicate⟩
  have hread : ∀ insertion ∈ [.char (chr 'x'), .string long, .cString none],
      Insertion.Readable insertion := by
    intro insertion hmem
    rcases List.mem_cons.mp hmem with rfl | hmem
    · trivial
    rcases List.mem_cons.mp hmem with rfl | hmem
    · trivial
    rw [List.mem_singleton.mp hmem]
    trivial
  obtain ⟨final, hrun, hfinal, _⟩ := insertAll_holds ⟨long, hlong⟩ hread
  refine ⟨_, long, final, hlong, hrun, hfinal.used_eq.trans ?_⟩
  have hdropped : Insertion.fits (kSmallBuffer - 1) (.string long) = false := by
    simp only [Insertion.fits, Insertion.text, hlong]
    rfl
  rw [Insertion.acceptedText_cons rfl]
  exact congrArg (chr 'x' :: ·) (Insertion.acceptedText_skip hdropped)

end LogStream

end MyFileServer
