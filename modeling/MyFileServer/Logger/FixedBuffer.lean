import MyFileServer.Base.Runtime
import MyFileServer.Lib.Window

/-!
# The buffers of the log

`FixedBuffer<SIZE>` is an array with a cursor.  A line is stored only if it
leaves at least one byte free, so the cursor never reaches the end, and
`reset` moves the cursor back and leaves the contents.  `current()` also lets
a caller write behind the cursor and move it with `add` afterwards.
-/

namespace MyFileServer

open Window

structure FixedBuffer (SIZE : ℕ) where
  data_ : Bytes
  cur_ : ℕ
  length_data : data_.length = SIZE
  cur_lt : cur_ < SIZE

namespace FixedBuffer

variable {SIZE : ℕ}

def avail (buf : FixedBuffer SIZE) : ℕ :=
  SIZE - buf.cur_

/-- `end() - data_`. -/
def length (_ : FixedBuffer SIZE) : ℕ :=
  SIZE

def append (buf : FixedBuffer SIZE) (line : Bytes) : FixedBuffer SIZE :=
  if hfit : line.length < buf.avail then
    { data_ := buf.data_.take buf.cur_ ++ line ++ buf.data_.drop (buf.cur_ + line.length)
      cur_ := buf.cur_ + line.length
      length_data := by
        have hdata := buf.length_data
        unfold avail at hfit
        simp only [List.length_append, List.length_take, List.length_drop]
        omega
      cur_lt := by
        unfold avail at hfit
        omega }
  else buf

def reset (buf : FixedBuffer SIZE) : FixedBuffer SIZE :=
  { buf with cur_ := 0, cur_lt := Nat.zero_lt_of_lt buf.cur_lt }

/-- A new buffer in memory with the given contents. -/
def allocate (hsize : 0 < SIZE) (memory : {data : Bytes // data.length = SIZE}) :
    FixedBuffer SIZE where
  data_ := memory.1
  cur_ := 0
  length_data := memory.2
  cur_lt := hsize

/-- The bytes in front of the cursor. -/
def used (buf : FixedBuffer SIZE) : Bytes :=
  buf.data_.take buf.cur_

@[simp] theorem length_used (buf : FixedBuffer SIZE) : buf.used.length = buf.cur_ := by
  have hdata := buf.length_data
  have hcur := buf.cur_lt
  simp only [used, List.length_take]
  omega

@[simp] theorem used_allocate (hsize : 0 < SIZE)
    (memory : {data : Bytes // data.length = SIZE}) : (allocate hsize memory).used = [] := by
  simp [used, allocate]

theorem used_append {buf : FixedBuffer SIZE} {line : Bytes}
    (hfit : line.length < buf.avail) : (buf.append line).used = buf.used ++ line := by
  have hlength := buf.length_used
  have hdata : (buf.append line).data_ =
      (buf.used ++ line) ++ buf.data_.drop (buf.cur_ + line.length) := by
    simp [append, hfit, used]
  have hcur : (buf.append line).cur_ = (buf.used ++ line).length := by
    simp [append, hfit]
  unfold used at hlength ⊢
  rw [hdata, hcur]
  exact List.take_left

theorem append_eq_self {buf : FixedBuffer SIZE} {line : Bytes}
    (hfull : ¬ line.length < buf.avail) : buf.append line = buf := by
  simp [append, hfull]

/-! ## Stores behind the cursor -/

/-- Stores of `text` from the index `i` on. -/
def put (buf : FixedBuffer SIZE) (i : ℕ) (text : Bytes) : Exec (FixedBuffer SIZE) :=
  if hfit : i + text.length ≤ SIZE then
    .ok { buf with
      data_ := overwrite buf.data_ i text
      length_data := by rw [length_overwrite (by rwa [buf.length_data]), buf.length_data] }
  else .error .outOfRange

/-- `std::reverse` on the bytes with indices in `[first, last)`. -/
def reverse (buf : FixedBuffer SIZE) (first last : ℕ) : Exec (FixedBuffer SIZE) :=
  if hrange : first ≤ last ∧ last ≤ SIZE then
    .ok { buf with
      data_ := reverseRange buf.data_ first last
      length_data := by
        rw [length_reverseRange hrange.1 (by rw [buf.length_data]; exact hrange.2),
          buf.length_data] }
  else .error .outOfRange

/-- The source moves the cursor without a test; a move to the end would break
what the type says of the cursor. -/
def add (buf : FixedBuffer SIZE) (len : ℕ) : Exec (FixedBuffer SIZE) :=
  if hroom : buf.cur_ + len < SIZE then
    .ok { buf with cur_ := buf.cur_ + len, cur_lt := hroom }
  else .error .outOfRange

@[ext] theorem ext {buf buf' : FixedBuffer SIZE} (hdata : buf.data_ = buf'.data_)
    (hcur : buf.cur_ = buf'.cur_) : buf = buf' := by
  cases buf
  cases buf'
  cases hdata
  cases hcur
  rfl

theorem put_eq_ok {buf buf' : FixedBuffer SIZE} {i : ℕ} {text : Bytes} :
    buf.put i text = .ok buf' ↔
      i + text.length ≤ SIZE ∧ buf'.data_ = overwrite buf.data_ i text ∧
        buf'.cur_ = buf.cur_ := by
  unfold put
  split_ifs with hfit
  · rw [Except.ok.injEq]
    constructor
    · rintro rfl
      exact ⟨hfit, rfl, rfl⟩
    · intro h
      exact ext h.2.1.symm h.2.2.symm
  · constructor
    · intro h
      cases h
    · exact fun h => absurd h.1 hfit

theorem exists_put {buf : FixedBuffer SIZE} {i : ℕ} {text : Bytes}
    (hfit : i + text.length ≤ SIZE) : ∃ buf', buf.put i text = .ok buf' := by
  rw [put, dif_pos hfit]
  exact ⟨_, rfl⟩

theorem exists_add {buf : FixedBuffer SIZE} {len : ℕ} (hroom : buf.cur_ + len < SIZE) :
    ∃ buf', buf.add len = .ok buf' := by
  rw [add, dif_pos hroom]
  exact ⟨_, rfl⟩

/-- Two stores, the second right behind the first. -/
theorem put_append {buf buf' : FixedBuffer SIZE} {i : ℕ} {first : Bytes}
    (hfirst : buf.put i first = .ok buf') (second : Bytes) :
    buf'.put (i + first.length) second = buf.put i (first ++ second) := by
  obtain ⟨hfit, hdata, hcur⟩ := put_eq_ok.mp hfirst
  unfold put
  simp only [List.length_append, ← Nat.add_assoc]
  split_ifs with hroom
  · rw [Except.ok.injEq]
    refine ext ?_ hcur
    change overwrite buf'.data_ (i + first.length) second = overwrite buf.data_ i (first ++ second)
    rw [hdata, overwrite_overwrite (by rwa [buf.length_data])]
  · rfl

theorem put_split {buf stored : FixedBuffer SIZE} {i : ℕ} {first second : Bytes}
    (hput : buf.put i (first ++ second) = .ok stored) :
    ∃ mid, buf.put i first = .ok mid ∧ mid.put (i + first.length) second = .ok stored := by
  have hfit := (put_eq_ok.mp hput).1
  rw [List.length_append] at hfit
  obtain ⟨mid, hmid⟩ := @exists_put _ buf i first (by omega)
  exact ⟨mid, hmid, (put_append hmid second).trans hput⟩

/-- A text that was stored, with a part behind it, and turned round. -/
theorem reverse_put {buf buf' : FixedBuffer SIZE} {i : ℕ} {first second : Bytes}
    (hput : buf.put i (first ++ second) = .ok buf') :
    buf'.reverse i (i + first.length) = buf.put i (first.reverse ++ second) := by
  obtain ⟨hfit, hdata, hcur⟩ := put_eq_ok.mp hput
  rw [List.length_append] at hfit
  unfold reverse put
  rw [dif_pos (by omega), dif_pos (by simpa using hfit), Except.ok.injEq]
  refine ext ?_ hcur
  change reverseRange buf'.data_ i (i + first.length) =
    overwrite buf.data_ i (first.reverse ++ second)
  rw [hdata, reverseRange_overwrite (by rw [buf.length_data]; omega)]

theorem data_add {buf moved : FixedBuffer SIZE} {len : ℕ} (hadd : buf.add len = .ok moved) :
    moved.data_ = buf.data_ := by
  unfold add at hadd
  split_ifs at hadd
  obtain rfl := Except.ok.inj hadd
  rfl

/-- Bytes behind the cursor and a move over the first of them. -/
theorem used_put_add {buf stored moved : FixedBuffer SIZE} {text behind : Bytes}
    (hput : buf.put buf.cur_ (text ++ behind) = .ok stored)
    (hadd : stored.add text.length = .ok moved) :
    moved.cur_ = buf.cur_ + text.length ∧ moved.used = buf.used ++ text := by
  obtain ⟨hfit, hdata, hcur⟩ := put_eq_ok.mp hput
  unfold add at hadd
  split_ifs at hadd with hroom
  obtain rfl := Except.ok.inj hadd
  refine ⟨by rw [← hcur], ?_⟩
  have hfront : (buf.data_.take buf.cur_ ++ text).length = buf.cur_ + text.length := by
    rw [List.length_append]
    exact congrArg (· + text.length) buf.length_used
  change stored.data_.take (stored.cur_ + text.length) = buf.data_.take buf.cur_ ++ text
  rw [hcur, hdata, overwrite, ← List.append_assoc, List.append_assoc]
  exact List.take_left' hfront

end FixedBuffer

end MyFileServer
