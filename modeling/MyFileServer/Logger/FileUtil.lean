import MyFileServer.Base.Runtime
import Mathlib.Tactic

/-!
# Writing to the log file

`FileUtil::append` calls `fwrite` until it has taken every byte.  It looks at
`ferror` only to print a message, so the loop ends exactly if the results of
the calls add up to the length of the data.
-/

namespace MyFileServer

/-- A log file: the bytes that `fwrite` has taken, in their order, and what
the code counts in an `off_t`. -/
structure FileUtil where
  contents : Bytes
  writtenBytes_ : ℤ
  lower : -2 ^ 63 ≤ writtenBytes_
  upper : writtenBytes_ < 2 ^ 63

/-- What a call of `fwrite` can do: the number of bytes that it takes, if there
are as many, and what `ferror` returns afterwards. -/
structure FwriteAnswer where
  count : ℕ
  error : ℤ

theorem bmod_range (n : ℤ) :
    -2 ^ 63 ≤ Int.bmod n (2 ^ 64) ∧ Int.bmod n (2 ^ 64) < 2 ^ 63 := by
  have hlow := Int.le_bmod (x := n) (show 0 < 2 ^ 64 by decide)
  have hhigh := Int.bmod_lt (x := n) (show 0 < 2 ^ 64 by decide)
  constructor <;> omega

theorem bmod_eq_iff (n : ℤ) : Int.bmod n (2 ^ 64) = n ↔ -2 ^ 63 ≤ n ∧ n < 2 ^ 63 := by
  rw [Int.bmod_def]
  split_ifs <;> omega

namespace FileUtil

/-- `FileUtil::FileUtil`. -/
def create : FileUtil where
  contents := []
  writtenBytes_ := 0
  lower := by decide
  upper := by decide

/-- `fwrite` takes the first `n` bytes. -/
def take (file : FileUtil) (data : Bytes) (n : ℕ) : FileUtil :=
  { file with contents := file.contents ++ data.take n }

/-- `writtenBytes_ += written`, in the arithmetic of `unsigned long`. -/
def count (file : FileUtil) (written : ℕ) : FileUtil :=
  { file with
    writtenBytes_ := Int.bmod (file.writtenBytes_ + written) (2 ^ 64)
    lower := (bmod_range _).1
    upper := (bmod_range _).2 }

/-- The loop of `append` with the messages that it prints, from the point where
`written` bytes are taken; the answers are those to the calls to come. -/
def appendLoop (data : Bytes) : ℕ → (ℕ → FwriteAnswer) → FileUtil → ℕ →
    Option (FileUtil × List ℤ)
  | 0, _, _, _ => none
  | fuel + 1, answers, file, written =>
      if written ≠ data.length then do
        let remain := data.length - written
        let n := min (answers 0).count remain
        let messages := if n ≠ remain ∧ (answers 0).error ≠ 0 then [(answers 0).error] else []
        let (file, more) ← appendLoop data fuel (fun i => answers (i + 1))
          (file.take (data.drop written) n) (written + n)
        return (file, messages ++ more)
      else return (file.count written, [])

def append (fuel : ℕ) (answers : ℕ → FwriteAnswer) (file : FileUtil) (data : Bytes) :
    Option (FileUtil × List ℤ) :=
  appendLoop data fuel answers file 0

/-- The file after the rest of the data is taken. -/
def appended (file : FileUtil) (data rest : Bytes) : FileUtil :=
  (file.take rest rest.length).count data.length

/-- How many bytes the first `k` calls take, if there are as many. -/
def offered (answers : ℕ → FwriteAnswer) (k : ℕ) : ℕ :=
  ∑ i ∈ Finset.range k, (answers i).count

theorem offered_succ (answers : ℕ → FwriteAnswer) (k : ℕ) :
    offered answers (k + 1) = (answers 0).count + offered (fun i => answers (i + 1)) k := by
  rw [offered, Finset.sum_range_succ', Nat.add_comm]
  rfl

theorem take_zero (file : FileUtil) (data : Bytes) : file.take data 0 = file := by
  simp [take]

theorem take_take (file : FileUtil) (data : Bytes) (m n : ℕ) :
    (file.take data m).take (data.drop m) n = file.take data (m + n) := by
  simp only [take, List.append_assoc, List.take_add]

theorem appendLoop_done (data : Bytes) (fuel : ℕ) (answers : ℕ → FwriteAnswer)
    (file : FileUtil) :
    appendLoop data (fuel + 1) answers file data.length =
      some (file.appended data (data.drop data.length), []) := by
  rw [appendLoop, if_neg (by simp), List.drop_length, appended, List.length_nil, take_zero]
  rfl

/-- The loop ends with the rest of the data taken once and in order. -/
theorem appendLoop_ends {data : Bytes} {answers : ℕ → FwriteAnswer} {file : FileUtil}
    {written k : ℕ} (hwritten : written ≤ data.length)
    (hall : data.length ≤ written + offered answers k) :
    ∃ messages, appendLoop data (k + 1) answers file written =
      some (file.appended data (data.drop written), messages) := by
  induction k generalizing answers file written with
  | zero =>
      have hdone : written = data.length := le_antisymm hwritten hall
      rw [hdone]
      exact ⟨[], appendLoop_done data 0 answers file⟩
  | succ k ih =>
      by_cases hdone : written = data.length
      · rw [hdone]
        exact ⟨[], appendLoop_done data (k + 1) answers file⟩
      · obtain ⟨n, hn⟩ : ∃ n, n = min (answers 0).count (data.length - written) := ⟨_, rfl⟩
        rw [offered_succ] at hall
        obtain ⟨more, hmore⟩ := @ih (fun i => answers (i + 1)) (file.take (data.drop written) n)
          (written + n) (by omega) (by omega)
        have hrest : (file.take (data.drop written) n).appended data (data.drop (written + n)) =
            file.appended data (data.drop written) := by
          unfold appended
          rw [← List.drop_drop, take_take, List.length_drop, List.length_drop]
          congr 2
          omega
        rw [hrest] at hmore
        rw [appendLoop, if_pos hdone]
        simp only [← hn, hmore]
        exact ⟨_, rfl⟩

/-- A loop that ends was offered every byte. -/
theorem offered_of_ends {data : Bytes} {fuel : ℕ} {answers : ℕ → FwriteAnswer} {file : FileUtil}
    {written : ℕ} {final : FileUtil} {messages : List ℤ}
    (hends : appendLoop data fuel answers file written = some (final, messages)) :
    ∃ k, data.length ≤ written + offered answers k := by
  induction fuel generalizing answers file written final messages with
  | zero => cases hends
  | succ fuel ih =>
      rw [appendLoop] at hends
      by_cases hdone : written = data.length
      · exact ⟨0, by omega⟩
      · rw [if_pos hdone] at hends
        obtain ⟨⟨next, more⟩, hrest, _⟩ := Option.bind_eq_some_iff.mp hends
        obtain ⟨k, hk⟩ := ih hrest
        refine ⟨k + 1, ?_⟩
        rw [offered_succ]
        omega

/-- The counter and the file after the whole of the data. -/
theorem appended_eq (file : FileUtil) (data : Bytes) :
    (file.appended data data).contents = file.contents ++ data ∧
      (file.appended data data).writtenBytes_ =
        Int.bmod (file.writtenBytes_ + data.length) (2 ^ 64) := by
  constructor
  · simp [appended, take, count]
  · rfl

/-- With writes that succeed `append` ends in `appended`. -/
theorem append_of_offered {answers : ℕ → FwriteAnswer} {data : Bytes} {k : ℕ}
    (file : FileUtil) (hall : data.length ≤ offered answers k) :
    ∃ messages, append (k + 1) answers file data = some (file.appended data data, messages) := by
  have hends := @appendLoop_ends data answers file 0 k (Nat.zero_le _) (by omega)
  rwa [List.drop_zero] at hends

/-- `append` ends iff the results of `fwrite` add up to the length of the data;
then every byte is taken once and in order, and the counter is right unless it
leaves the range of `off_t`. -/
theorem append_ends_iff (answers : ℕ → FwriteAnswer) (file : FileUtil) (data : Bytes) :
    (∃ fuel final messages, append fuel answers file data = some (final, messages) ∧
      final.contents = file.contents ++ data ∧
      final.writtenBytes_ = file.writtenBytes_ + data.length) ↔
    (∃ k, data.length ≤ offered answers k) ∧ file.writtenBytes_ + data.length < 2 ^ 63 := by
  obtain ⟨hcontents, hcount⟩ := file.appended_eq data
  have hlow := file.lower
  constructor
  · rintro ⟨fuel, final, messages, hends, _, hgrows⟩
    obtain ⟨k, hk⟩ := offered_of_ends hends
    refine ⟨⟨k, by omega⟩, ?_⟩
    rw [← hgrows]
    exact final.upper
  · rintro ⟨⟨k, hk⟩, hrange⟩
    obtain ⟨messages, hends⟩ := append_of_offered file hk
    refine ⟨k + 1, _, messages, hends, hcontents, hcount.trans ?_⟩
    rw [bmod_eq_iff]
    omega

/-- A disk that is full: no call takes a byte. -/
def fullDisk : ℕ → FwriteAnswer := fun _ => ⟨0, 1⟩

theorem append_fullDisk (fuel : ℕ) (file : FileUtil) {data : Bytes} (hdata : data ≠ []) :
    append fuel fullDisk file data = none := by
  cases hends : append fuel fullDisk file data with
  | none => rfl
  | some result =>
      obtain ⟨final, messages⟩ := result
      obtain ⟨k, hk⟩ := offered_of_ends hends
      have hnone : offered fullDisk k = 0 := Finset.sum_eq_zero fun _ _ => rfl
      rw [hnone] at hk
      exact absurd (List.length_eq_zero_iff.mp (by omega)) hdata

theorem append_fullDisk_line :
    ¬ ∃ fuel result, append fuel fullDisk create (ascii "line\n") = some result := by
  intro hends
  obtain ⟨fuel, result, hresult⟩ := hends
  rw [append_fullDisk fuel create (by decide)] at hresult
  cases hresult

end FileUtil

end MyFileServer
