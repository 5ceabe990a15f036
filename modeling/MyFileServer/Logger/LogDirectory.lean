import MyFileServer.Lib.LexOrder
import MyFileServer.Lib.Listing
import MyFileServer.Logger.LogFile
import MyFileServer.Logger.LogTime

/-!
# The log files of a directory

`rollFile` names a new file after the second in which it is opened.  As long
as the local time only goes forward the names come in the order of the files,
so the log is what the files hold one after another in the order in which the
directory lists them, and then what the buffer of the last one still holds back.
-/

namespace MyFileServer

open Execution LexOrder

/-! ## Texts of digits -/

theorem foldl_digits (v : ℕ) (digits : Bytes) :
    digits.foldl (fun value c => value * 10 + (c.toNat - 48)) v =
      v * 10 ^ digits.length + digitsValue digits := by
  induction digits generalizing v with
  | nil => simp [digitsValue]
  | cons c digits ih =>
      unfold digitsValue
      rw [List.foldl_cons, List.foldl_cons, ih, ih, List.length_cons, pow_succ]
      ring

theorem digitsValue_cons (c : UInt8) (digits : Bytes) :
    digitsValue (c :: digits) = (c.toNat - 48) * 10 ^ digits.length + digitsValue digits := by
  change digits.foldl (fun value c => value * 10 + (c.toNat - 48)) (0 * 10 + (c.toNat - 48)) = _
  rw [foldl_digits, Nat.zero_mul, Nat.zero_add]

theorem toNat_of_isdigit {c : UInt8} (hc : isdigit c = true) : 48 ≤ c.toNat ∧ c.toNat ≤ 57 := by
  unfold isdigit at hc
  simp only [Bool.and_eq_true, decide_eq_true_eq] at hc
  exact ⟨UInt8.le_iff_toNat_le.mp hc.1, UInt8.le_iff_toNat_le.mp hc.2⟩

theorem digitsValue_lt_pow {digits : Bytes} (hdigits : ∀ c ∈ digits, isdigit c = true) :
    digitsValue digits < 10 ^ digits.length := by
  induction digits with
  | nil => simp [digitsValue]
  | cons c digits ih =>
      obtain ⟨hc, hrest⟩ := List.forall_mem_cons.mp hdigits
      have hdigit : c.toNat - 48 ≤ 9 := by
        have := toNat_of_isdigit hc
        omega
      have hhigh : (c.toNat - 48) * 10 ^ digits.length ≤ 9 * 10 ^ digits.length :=
        Nat.mul_le_mul_right _ hdigit
      rw [digitsValue_cons, List.length_cons, pow_succ]
      have hlow := ih hrest
      omega

/-- Texts of digits of the same length compare as their values. -/
theorem digitsValue_lt_of_lt {digits digits' : Bytes} (hlength : digits.length = digits'.length)
    (hdigits : ∀ c ∈ digits, isdigit c = true) (hdigits' : ∀ c ∈ digits', isdigit c = true)
    (hlt : digits.map UInt8.toNat < digits'.map UInt8.toNat) :
    digitsValue digits < digitsValue digits' := by
  induction digits generalizing digits' with
  | nil =>
      rw [List.length_nil, eq_comm, List.length_eq_zero_iff] at hlength
      rw [hlength] at hlt
      exact absurd hlt (lt_irrefl _)
  | cons c digits ih =>
      cases digits' with
      | nil => simp at hlength
      | cons c' digits' =>
          obtain ⟨hc, hrest⟩ := List.forall_mem_cons.mp hdigits
          obtain ⟨hc', hrest'⟩ := List.forall_mem_cons.mp hdigits'
          have hsame : digits.length = digits'.length := Nat.succ.inj hlength
          rw [digitsValue_cons, digitsValue_cons, hsame]
          rcases List.cons_lt_cons_iff.mp hlt with hfirst | ⟨hfirst, hlater⟩
          · have hlow := digitsValue_lt_pow hrest
            have hstep : c.toNat - 48 + 1 ≤ c'.toNat - 48 := by
              have := toNat_of_isdigit hc
              omega
            have hhigh : (c.toNat - 48 + 1) * 10 ^ digits'.length ≤
                (c'.toNat - 48) * 10 ^ digits'.length := Nat.mul_le_mul_right _ hstep
            rw [hsame] at hlow
            rw [Nat.add_mul, Nat.one_mul] at hhigh
            omega
          · rw [hfirst]
            exact Nat.add_lt_add_left (ih hsame hrest hrest' hlater) _

theorem map_toNat_injective : Function.Injective (List.map UInt8.toNat) :=
  List.map_injective_iff.mpr fun _ _ h => UInt8.toNat_inj.mp h

theorem map_toNat_lt_of_digitsValue_lt {digits digits' : Bytes}
    (hlength : digits.length = digits'.length)
    (hdigits : ∀ c ∈ digits, isdigit c = true) (hdigits' : ∀ c ∈ digits', isdigit c = true)
    (hlt : digitsValue digits < digitsValue digits') :
    digits.map UInt8.toNat < digits'.map UInt8.toNat := by
  rcases lt_trichotomy (digits.map UInt8.toNat) (digits'.map UInt8.toNat) with h | h | h
  · exact h
  · rw [map_toNat_injective h] at hlt
    exact absurd hlt (lt_irrefl _)
  · exact absurd (digitsValue_lt_of_lt hlength.symm hdigits' hdigits h) hlt.not_gt

/-! ## The name of a file -/

/-- A name, in the order of its bytes. -/
structure FileName where
  bytes : Bytes
  deriving DecidableEq

instance : LinearOrder FileName :=
  LinearOrder.lift' (fun name => name.bytes.map UInt8.toNat) fun name name' h => by
    cases name
    cases name'
    exact congrArg FileName.mk (map_toNat_injective h)

/-- `strftime` with `".%Y%m%d-%H%M%S"`; `timebuf` is longer than every such
text. -/
def timebuf (tm : Tm) : Bytes :=
  ascii "." ++ to_string (tm.tm_year + 1900) ++ zeroPadded 2 (tm.tm_mon + 1) ++
    zeroPadded 2 tm.tm_mday ++ ascii "-" ++ zeroPadded 2 tm.tm_hour ++ zeroPadded 2 tm.tm_min ++
    zeroPadded 2 tm.tm_sec

def getLogFileName (basename : Bytes) (tm : Tm) : FileName :=
  ⟨basename ++ timebuf tm ++ ascii ".log"⟩

/-- The fields that the name shows. -/
def Tm.shown (tm : Tm) : List ℤ :=
  [tm.tm_year + 1900, tm.tm_mon + 1, tm.tm_mday, tm.tm_hour, tm.tm_min, tm.tm_sec]

/-- What `localtime_r` gives while the clock goes from `first` to `last`: valid
fields, a year of four digits, and no hour that comes twice. -/
structure GoesForward (localtime : ℤ → Tm) (first last : ℤ) : Prop where
  valid : ∀ now, first ≤ now → now ≤ last → (localtime now).Valid
  year : ∀ now, first ≤ now → now ≤ last →
    1000 ≤ (localtime now).tm_year + 1900 ∧ (localtime now).tm_year + 1900 ≤ 9999
  later : ∀ now now', first ≤ now → now < now' → now' ≤ last →
    (localtime now).shown < (localtime now').shown

/-- A number in a fixed number of digits. -/
structure InDigits (width : ℕ) (text : Bytes) (v : ℤ) : Prop where
  digits : ∀ c ∈ text, isdigit c = true
  length : text.length = width
  value : (digitsValue text : ℤ) = v

theorem inDigits_zeroPadded {width : ℕ} {v : ℤ} (hwidth : 0 < width) (hv : 0 ≤ v)
    (hsmall : v < 10 ^ width) : InDigits width (zeroPadded width v) v := by
  have hlength : (decimal v.natAbs).length ≤ width := by
    refine length_decimal_le hwidth ?_
    zify
    rwa [abs_of_nonneg hv]
  have htext : zeroPadded width v =
      List.replicate (width - (decimal v.natAbs).length) (chr '0') ++ decimal v.natAbs := by
    unfold zeroPadded
    rw [if_neg (not_lt.mpr hv)]
    rfl
  obtain ⟨hnumber, hvalue⟩ :=
    isNumber_zeros_decimal (width - (decimal v.natAbs).length) v.natAbs
  rw [htext]
  refine ⟨hnumber.digits, ?_, ?_⟩
  · rw [List.length_append, List.length_replicate]
    omega
  · rw [hvalue]
    omega

theorem inDigits_year {year : ℤ} (hyear : 1000 ≤ year ∧ year ≤ 9999) :
    InDigits 4 (to_string year) year := by
  have htext : to_string year = decimal year.toNat :=
    to_string_eq_decimal_iff.mpr (Int.toNat_of_nonneg (by omega)).symm
  have hdigits : ∀ c ∈ decimal year.toNat, isdigit c = true := fun _ => isdigit_of_mem_decimal
  have hlong : (decimal year.toNat).length ≤ 4 := length_decimal_le (by decide) (by omega)
  have hvalue := digitsValue_lt_pow hdigits
  rw [digitsValue_decimal] at hvalue
  rw [htext]
  refine ⟨hdigits, ?_, ?_⟩
  · by_contra hshort
    have hpow : 10 ^ (decimal year.toNat).length ≤ 10 ^ 3 :=
      Nat.pow_le_pow_right (by decide) (by omega)
    omega
  · rw [digitsValue_decimal]
    omega

theorem InDigits.compares {width : ℕ} {text : ℤ → Bytes} {v v' : ℤ}
    (h : InDigits width (text v) v) (h' : InDigits width (text v') v') :
    Compares (fun v => (text v).map UInt8.toNat) v v' where
  length_eq := by
    rw [List.length_map, List.length_map, h.length, h'.length]
  lt := by
    intro hlt
    refine map_toNat_lt_of_digitsValue_lt (h.length.trans h'.length.symm) h.digits h'.digits ?_
    have hvalue := h.value
    have hvalue' := h'.value
    omega

/-- The text of the name, field by field. -/
def nameEncodings : List (ℤ → List ℕ) :=
  [fun year => (to_string year).map UInt8.toNat,
    fun mon => (zeroPadded 2 mon).map UInt8.toNat,
    fun mday => (zeroPadded 2 mday).map UInt8.toNat ++ (ascii "-").map UInt8.toNat,
    fun hour => (zeroPadded 2 hour).map UInt8.toNat,
    fun min => (zeroPadded 2 min).map UInt8.toNat,
    fun sec => (zeroPadded 2 sec).map UInt8.toNat ++ (ascii ".log").map UInt8.toNat]

theorem getLogFileName_eq (basename : Bytes) (tm : Tm) :
    (getLogFileName basename tm).bytes.map UInt8.toNat =
      (basename ++ ascii ".").map UInt8.toNat ++ render nameEncodings tm.shown := by
  unfold getLogFileName timebuf render nameEncodings Tm.shown
  simp [List.zipWith]

theorem compares_twoDigits {v v' : ℤ} (hv : 0 ≤ v ∧ v ≤ 99) (hv' : 0 ≤ v' ∧ v' ≤ 99) :
    Compares (fun v => (zeroPadded 2 v).map UInt8.toNat) v v' :=
  (inDigits_zeroPadded (by decide) hv.1 (by omega)).compares
    (inDigits_zeroPadded (by decide) hv'.1 (by omega))

theorem comparable_shown {tm tm' : Tm} (htm : tm.Valid) (htm' : tm'.Valid)
    (hyear : 1000 ≤ tm.tm_year + 1900 ∧ tm.tm_year + 1900 ≤ 9999)
    (hyear' : 1000 ≤ tm'.tm_year + 1900 ∧ tm'.tm_year + 1900 ≤ 9999) :
    Comparable nameEncodings tm.shown tm'.shown := by
  have hmon := htm.mon
  have hmon' := htm'.mon
  have hmday := htm.mday
  have hmday' := htm'.mday
  have hhour := htm.hour
  have hhour' := htm'.hour
  have hmin := htm.min
  have hmin' := htm'.min
  have hsec := htm.sec
  have hsec' := htm'.sec
  refine .cons ((inDigits_year hyear).compares (inDigits_year hyear')) ?_
  refine .cons (compares_twoDigits (by omega) (by omega)) ?_
  refine .cons ((compares_twoDigits (by omega) (by omega)).append _) ?_
  refine .cons (compares_twoDigits (by omega) (by omega)) ?_
  refine .cons (compares_twoDigits (by omega) (by omega)) ?_
  exact .cons ((compares_twoDigits (by omega) (by omega)).append _) .nil

theorem GoesForward.getLogFileName_lt {localtime : ℤ → Tm} {first last : ℤ}
    (hlocal : GoesForward localtime first last) (basename : Bytes) {now now' : ℤ}
    (hfirst : first ≤ now) (hlt : now < now') (hlast : now' ≤ last) :
    getLogFileName basename (localtime now) < getLogFileName basename (localtime now') := by
  have hcomparable := comparable_shown (hlocal.valid now hfirst (by omega))
    (hlocal.valid now' (by omega) hlast) (hlocal.year now hfirst (by omega))
    (hlocal.year now' (by omega) hlast)
  have hrender := render_lt_render hcomparable (hlocal.later now now' hfirst hlt hlast)
  change (getLogFileName basename (localtime now)).bytes.map UInt8.toNat <
    (getLogFileName basename (localtime now')).bytes.map UInt8.toNat
  rw [getLogFileName_eq, getLogFileName_eq]
  exact List.append_left_lt hrender

/-! ## The directory -/

/-- `sizeof(buffer_)` in `FileUtil`. -/
def streamBuffer : ℕ := 64 * 1024

/-- How many of `length` bytes have left the buffer of a stream that had let go
of `old`: as many as it likes, but it cannot hold back more than the buffer. -/
def drainedTo (old length drains : ℕ) : ℕ :=
  max (max old (length - streamBuffer)) (min drains length)

namespace LogFile

/-- What `fwrite` has taken for the open file. -/
def contents (log : LogFile) : Bytes :=
  (log.file_.map FileUtil.contents).getD []

/-- `file_->append(data, len)`. -/
def write (log : LogFile) (data : Bytes) : LogFile :=
  { log with file_ := log.file_.map fun file => file.appended data data }

end LogFile

/-- The log file, the files of the directory, the name of the open one, and how
many of its bytes have left `buffer_`. -/
structure LogDirectory where
  system : LogFileSystem
  files : Listing FileName UInt8
  current : Option FileName
  drained : ℕ

/-- A call of `append`, with how far the stream has written the file when it
returns. -/
structure DirectoryCall extends LogFileCall where
  drains : ℕ

namespace LogDirectory

/-- `LogFile::LogFile`, in a directory that may hold older files. -/
def create (localtime : ℤ → Tm) (basename : Bytes) (options : LogFileOptions)
    (files : Listing FileName UInt8) (now : ℤ) : LogDirectory :=
  let name := getLogFileName basename (localtime now)
  let system := LogFileSystem.create options now
  if 0 < now then
    { system, files := files.openFile name, current := some name, drained := 0 }
  else
    { system, files, current := none, drained := 0 }

/-- The files when the stream has written the first `n` bytes of the open
one. -/
def drain (s : LogDirectory) (contents : Bytes) (n : ℕ) : Listing FileName UInt8 :=
  match s.current with
  | some name => s.files.append name ((contents.take n).drop s.drained)
  | none => s.files

/-- A call of `append`.  When it opens another file, the file that it has
written to is closed. -/
def step (localtime : ℤ → Tm) (basename : Bytes) (s : LogDirectory) (call : DirectoryCall) :
    Except LogFailure (LogDirectory × LogFileOutcome) := do
  let (system, outcome) ← s.system.step call.toLogFileCall
  let contents := (s.system.log.write call.data).contents
  if outcome.rolled then
    let name := getLogFileName basename (localtime system.log.lastRoll_)
    let files := (s.drain contents contents.length).openFile name
    return ({ system, files, current := some name, drained := 0 }, outcome)
  else
    let drained := if outcome.flushed then contents.length
      else drainedTo s.drained contents.length call.drains
    return ({ s with system, files := s.drain contents drained, drained }, outcome)

/-- `LogFile::flush`. -/
def flush (s : LogDirectory) : Except LogFailure LogDirectory :=
  match s.system.log.file_ with
  | none => .error .nullPointer
  | some file => .ok { s with
      files := s.drain file.contents file.contents.length
      drained := file.contents.length }

/-- The files when the `LogFile` is destroyed. -/
def close (s : LogDirectory) : Listing FileName UInt8 :=
  s.drain s.system.log.contents s.system.log.contents.length

/-- What the stream holds back. -/
def pending (s : LogDirectory) : Bytes :=
  s.system.log.contents.drop s.drained

/-- The time that the calls take. -/
def duration (inputs : List DirectoryCall) : ℤ :=
  (inputs.map fun call => (call.before + call.between : ℤ)).sum

/-- The open file is the last one, and everything is in the files or in the
buffer of the open one. -/
structure Listed (localtime : ℤ → Tm) (basename : Bytes) (first : ℤ) (log : Bytes)
    (s : LogDirectory) : Prop where
  inv : s.system.Inv
  first_le : first ≤ s.system.log.lastRoll_
  current_eq : s.current = some (getLogFileName basename (localtime s.system.log.lastRoll_))
  last : s.files.Last (getLogFileName basename (localtime s.system.log.lastRoll_))
  drained_le : s.drained ≤ s.system.log.contents.length
  held : s.pending.length ≤ streamBuffer
  cat_eq : s.files.cat ++ s.pending = log

end LogDirectory

theorem drainedTo_bounds {old length : ℕ} (hold : old ≤ length) (drains : ℕ) :
    old ≤ drainedTo old length drains ∧ drainedTo old length drains ≤ length ∧
      length - drainedTo old length drains ≤ streamBuffer := by
  unfold drainedTo
  omega

namespace LogFileSystem

theorem rollFile_cases {log next : LogFile} {now : ℤ} {outcome : LogFileOutcome}
    (hroll : log.rollFile now = (next, outcome)) :
    outcome.flushed = false ∧ if outcome.rolled then
      log.lastRoll_ < next.lastRoll_ ∧ next.contents = []
    else next.lastRoll_ = log.lastRoll_ ∧ next.contents = log.contents := by
  unfold LogFile.rollFile at hroll
  split_ifs at hroll with hlt
  · cases hroll
    exact ⟨rfl, hlt, rfl⟩
  · cases hroll
    exact ⟨rfl, rfl, rfl⟩

/-- A call that rolls does so later than the last one and leaves a new file, and
one that does not leaves the file with its data. -/
theorem Inv.step_cases {s next : LogFileSystem} (hs : s.Inv) {call : LogFileCall}
    {outcome : LogFileOutcome} (hstep : s.step call = .ok (next, outcome)) :
    next.clock = s.clock + call.before + call.between ∧
      if outcome.rolled then
        s.log.lastRoll_ < next.log.lastRoll_ ∧ next.log.contents = []
      else next.log.lastRoll_ = s.log.lastRoll_ ∧
        next.log.contents = (s.log.write call.data).contents := by
  obtain ⟨⟨log, made⟩, hlog, hresult⟩ := bind_eq_ok.mp hstep
  cases hresult
  refine ⟨rfl, ?_⟩
  obtain ⟨file, hfile⟩ := Option.ne_none_iff_exists'.mp hs.file_ne
  have hwritten : (s.log.write call.data).file_ = some (file.appended call.data call.data) :=
    congrArg (Option.map _) hfile
  have hcontents : (s.log.write call.data).contents =
      (file.appended call.data call.data).contents := by
    unfold LogFile.contents
    rw [hwritten]
    rfl
  rw [hcontents]
  unfold LogFile.appendInLock at hlog
  simp only [hfile] at hlog
  split_ifs at hlog
  · exact (rollFile_cases (Except.ok.inj hlog)).2
  · exact (rollFile_cases (Except.ok.inj hlog)).2
  · cases hlog
    exact ⟨rfl, rfl⟩
  · cases hlog
    exact ⟨rfl, rfl⟩
  · cases hlog
    exact ⟨rfl, rfl⟩

theorem Inv.contents_write {s : LogFileSystem} (hs : s.Inv) (data : Bytes) :
    (s.log.write data).contents = s.log.contents ++ data := by
  obtain ⟨file, hfile⟩ := Option.ne_none_iff_exists'.mp hs.file_ne
  unfold LogFile.write LogFile.contents
  rw [hfile]
  exact (file.appended_eq data).1

end LogFileSystem

namespace LogDirectory

variable {localtime : ℤ → Tm} {basename : Bytes} {first last : ℤ}

theorem Listed.drain {log : Bytes} {s : LogDirectory}
    (hs : Listed localtime basename first log s) {contents : Bytes} {n : ℕ} :
    (s.drain contents n).Last (getLogFileName basename (localtime s.system.log.lastRoll_)) ∧
      (s.drain contents n).cat = s.files.cat ++ (contents.take n).drop s.drained := by
  unfold LogDirectory.drain
  rw [hs.current_eq]
  exact ⟨Listing.last_append hs.last _, Listing.cat_append hs.last _⟩

/-- What the stream writes and what it keeps of the bytes behind `a`. -/
theorem drop_take_append {contents : Bytes} {a b : ℕ} (hab : a ≤ b) :
    (contents.take b).drop a ++ contents.drop b = contents.drop a := by
  rw [List.drop_take]
  have hjoin := List.drop_take_append_drop contents a (b - a)
  rwa [Nat.add_sub_cancel' hab] at hjoin

theorem Listed.cat_close {log : Bytes} {s : LogDirectory}
    (hs : Listed localtime basename first log s) : s.close.cat = log := by
  unfold close
  rw [hs.drain.2, List.take_length, ← hs.cat_eq]
  rfl

theorem Listed.flush {log : Bytes} {s : LogDirectory}
    (hs : Listed localtime basename first log s) :
    ∃ next, s.flush = .ok next ∧ next.system = s.system ∧ next.pending = [] ∧
      Listed localtime basename first log next := by
  obtain ⟨file, hfile⟩ := Option.ne_none_iff_exists'.mp hs.inv.file_ne
  have hcontents : s.system.log.contents = file.contents := by
    unfold LogFile.contents
    rw [hfile]
    rfl
  have hflush : s.flush = .ok { s with
      files := s.close
      drained := s.system.log.contents.length } := by
    unfold LogDirectory.flush close
    rw [hfile, hcontents]
  have hkept : s.system.log.contents.drop s.system.log.contents.length = [] := List.drop_length
  refine ⟨_, hflush, rfl, hkept, hs.inv, hs.first_le, hs.current_eq, hs.drain.1, le_rfl, ?_, ?_⟩
  · exact (congrArg List.length hkept).trans_le (Nat.zero_le _)
  · change s.close.cat ++ s.system.log.contents.drop s.system.log.contents.length = log
    rw [hkept, List.append_nil, hs.cat_close]

/-- What a call has taken is in the files or still in the buffer. -/
theorem Listed.cat_drain {log : Bytes} {s : LogDirectory}
    (hs : Listed localtime basename first log s) (data : Bytes) {n : ℕ} (hn : s.drained ≤ n) :
    (s.drain (s.system.log.contents ++ data) n).cat ++
        (s.system.log.contents ++ data).drop n = log ++ data := by
  rw [hs.drain.2, List.append_assoc, drop_take_append hn,
    List.drop_append_of_le_length hs.drained_le, ← List.append_assoc]
  exact congrArg (· ++ data) hs.cat_eq

theorem Listed.step (hlocal : GoesForward localtime first last) {log : Bytes} {s : LogDirectory}
    (hs : Listed localtime basename first log s) {call : DirectoryCall}
    (hlast : s.system.clock + call.before + call.between ≤ last) :
    ∃ next outcome, s.step localtime basename call = .ok (next, outcome) ∧
      next.system.clock = s.system.clock + call.before + call.between ∧
      Listed localtime basename first (log ++ call.data) next := by
  obtain ⟨system, outcome, hsystem, hinv, _⟩ := hs.inv.step call.toLogFileCall
  obtain ⟨hclock, hroll⟩ := hs.inv.step_cases hsystem
  have hwritten := hs.inv.contents_write call.data
  have htime := hinv.roll_le
  have hfirst := hs.first_le
  have hlength : s.drained ≤ (s.system.log.contents ++ call.data).length := by
    rw [List.length_append]
    exact hs.drained_le.trans (Nat.le_add_right _ _)
  unfold LogDirectory.step
  simp only [hsystem, hwritten, bind, Except.bind]
  cases hrolled : outcome.rolled with
  | true =>
      rw [hrolled, if_pos rfl] at hroll
      obtain ⟨hroll, hempty⟩ := hroll
      have hlater := hlocal.getLogFileName_lt basename hfirst hroll (by omega)
      have hcat := hs.cat_drain call.data hlength
      rw [List.drop_length, List.append_nil] at hcat
      have hnothing : system.log.contents.drop 0 = [] := hempty
      refine ⟨_, outcome, rfl, hclock, hinv, hfirst.trans hroll.le, rfl, ?_, Nat.zero_le _, ?_, ?_⟩
      · exact Listing.last_openFile fun name hname => (hs.drain.1.2 name hname).trans hlater.le
      · exact (congrArg List.length hnothing).trans_le (Nat.zero_le _)
      · change ((s.drain _ _).openFile _).cat ++ system.log.contents.drop 0 = _
        rw [hnothing, List.append_nil, Listing.cat_openFile, hcat]
  | false =>
      rw [hrolled, if_neg Bool.false_ne_true, hwritten] at hroll
      obtain ⟨hroll, hcontents⟩ := hroll
      obtain ⟨drained, hdrained⟩ : ∃ drained, drained = if outcome.flushed then
          (s.system.log.contents ++ call.data).length
        else drainedTo s.drained (s.system.log.contents ++ call.data).length call.drains :=
        ⟨_, rfl⟩
      have hbounds : s.drained ≤ drained ∧
          drained ≤ (s.system.log.contents ++ call.data).length ∧
          (s.system.log.contents ++ call.data).length - drained ≤ streamBuffer := by
        rw [hdrained]
        split_ifs
        · exact ⟨hlength, le_rfl, by rw [Nat.sub_self]; exact Nat.zero_le _⟩
        · exact drainedTo_bounds hlength call.drains
      refine ⟨_, outcome, rfl, hclock, hinv, hfirst.trans_eq hroll.symm, ?_, ?_, ?_, ?_, ?_⟩
      · exact hs.current_eq.trans
          (congrArg (fun now => some (getLogFileName basename (localtime now))) hroll.symm)
      · dsimp only
        rw [hroll]
        exact hs.drain.1
      · dsimp only
        rw [← hdrained, hcontents]
        exact hbounds.2.1
      · unfold pending
        dsimp only
        rw [← hdrained, hcontents, List.length_drop]
        exact hbounds.2.2
      · unfold pending
        dsimp only
        rw [← hdrained, hcontents]
        exact hs.cat_drain call.data hbounds.1

theorem Listed.run (hlocal : GoesForward localtime first last) {log : Bytes} {s : LogDirectory}
    (hs : Listed localtime basename first log s) {inputs : List DirectoryCall}
    (hlast : s.system.clock + duration inputs ≤ last) :
    ∃ final calls, Execution.run (LogDirectory.step localtime basename) s inputs =
        .ok (final, calls) ∧
      Listed localtime basename first (log ++ inputs.flatMap (·.data)) final := by
  induction inputs generalizing log s with
  | nil => exact ⟨s, [], rfl, by simpa using hs⟩
  | cons call inputs ih =>
      have htime : duration (call :: inputs) = call.before + call.between + duration inputs :=
        List.sum_cons
      have hlater : 0 ≤ duration inputs := by
        refine List.sum_nonneg fun t ht => ?_
        obtain ⟨input, _, rfl⟩ := List.mem_map.mp ht
        omega
      have hsoon : s.system.clock + call.before + call.between ≤ last := by omega
      obtain ⟨next, outcome, hstep, hclock, hnext⟩ := hs.step hlocal hsoon
      obtain ⟨final, calls, hrun, hfinal⟩ := ih hnext (by omega)
      refine ⟨final, _, run_cons_eq_ok.mpr ⟨_, _, _, hstep, hrun, rfl⟩, ?_⟩
      rw [List.flatMap_cons, ← List.append_assoc]
      exact hfinal

/-- The file that is opened first is the last one. -/
theorem listed_create (options : LogFileOptions) {now : ℤ} (hnow : 0 < now)
    {files : Listing FileName UInt8}
    (holder : ∀ name ∈ files.names, name ≤ getLogFileName basename (localtime now)) :
    (create localtime basename options files now).system.clock = now ∧
      (create localtime basename options files now).pending = [] ∧
      Listed localtime basename now files.cat (create localtime basename options files now) := by
  have hcreated : create localtime basename options files now =
      ⟨LogFileSystem.create options now, files.openFile (getLogFileName basename (localtime now)),
        some (getLogFileName basename (localtime now)), 0⟩ := if_pos hnow
  have hopened : (LogFileSystem.create options now).log.lastRoll_ = now ∧
      (LogFileSystem.create options now).log.contents = [] := by
    unfold LogFileSystem.create LogFile.create LogFile.rollFile
    rw [if_pos hnow]
    exact ⟨rfl, rfl⟩
  have hnothing : (create localtime basename options files now).pending = [] := by
    rw [hcreated]
    exact hopened.2
  refine ⟨by rw [hcreated]; rfl, hnothing, ?_, ?_, ?_, ?_, ?_, ?_, ?_⟩
  case refine_6 => rw [hnothing]; exact Nat.zero_le _
  case refine_7 =>
    rw [hnothing, List.append_nil, hcreated]
    exact Listing.cat_openFile _ _
  all_goals rw [hcreated]
  · exact (LogFileSystem.inv_create hnow).1
  · exact hopened.1.ge
  · exact congrArg (fun now => some (getLogFileName basename (localtime now))) hopened.1.symm
  · rw [hopened.1]
    exact Listing.last_openFile holder
  · exact Nat.zero_le _

/-- Every run of calls under a local time that only goes forward: no call
fails, and the files of the directory in the order of their names hold what
the older files held and then every line that was appended, in its order, up to
what is in the buffer of the open file; when that is closed they hold it all. -/
theorem cat_of_run (options : LogFileOptions) {now : ℤ} (hnow : 0 < now)
    {files : Listing FileName UInt8}
    (holder : ∀ name ∈ files.names, name ≤ getLogFileName basename (localtime now))
    {inputs : List DirectoryCall} (hlocal : GoesForward localtime now (now + duration inputs)) :
    ∃ final calls, run (step localtime basename)
        (create localtime basename options files now) inputs = .ok (final, calls) ∧
      final.files.cat ++ final.pending = files.cat ++ inputs.flatMap (·.data) ∧
      final.pending.length ≤ streamBuffer ∧
      final.close.cat = files.cat ++ inputs.flatMap (·.data) := by
  obtain ⟨hclock, _, hlisted⟩ := listed_create options hnow holder
  obtain ⟨final, calls, hrun, hfinal⟩ := hlisted.run hlocal (by rw [hclock])
  exact ⟨final, calls, hrun, hfinal.cat_eq, hfinal.held, hfinal.cat_close⟩

/-! ### Three lines in two files -/

/-- The time of Greenwich on the first day of 1970. -/
def firstDay (now : ℤ) : Tm where
  tm_year := 70
  tm_mon := 0
  tm_mday := 1
  tm_hour := now / 3600
  tm_min := now / 60 % 60
  tm_sec := now % 60

theorem goesForward_firstDay {first last : ℤ} (hfirst : 0 ≤ first) (hlast : last < 86400) :
    GoesForward firstDay first last where
  valid := by
    intro now hfrom hto
    constructor <;> dsimp only [firstDay] <;> omega
  year := by
    intro now _ _
    dsimp only [firstDay]
    omega
  later := by
    intro now now' hfrom hlt hto
    unfold Tm.shown firstDay
    simp only [List.cons_lt_cons_iff, lt_irrefl, false_or, true_and, and_false, or_false]
    omega

/-- The second line fills the first file; of the third the stream holds back
all but two bytes. -/
def threeLines : List DirectoryCall :=
  [⟨⟨ascii "one\n", 0, 0⟩, 0⟩, ⟨⟨ascii "two\n", 1, 0⟩, 0⟩, ⟨⟨ascii "three\n", 1, 0⟩, 2⟩]

def shortFiles : LogFileOptions := ⟨6, 3, 1024, by decide, by decide⟩

theorem cat_of_run_threeLines : ∃ final calls,
    run (step firstDay (ascii "server")) (create firstDay (ascii "server") shortFiles .empty 3600)
      threeLines = .ok (final, calls) ∧
    final.files.cat = ascii "one\ntwo\nth" ∧ final.pending = ascii "ree\n" ∧
    final.close.cat = ascii "one\ntwo\nthree\n" := by
  obtain ⟨final, calls, hrun, hcat, _, hclose⟩ := @cat_of_run firstDay (ascii "server")
    shortFiles 3600 (by decide) .empty
    (fun name hname => absurd hname (SortedSet.notMem_empty name)) threeLines
    (goesForward_firstDay (by decide) (by decide))
  have hpending : (run (step firstDay (ascii "server"))
      (create firstDay (ascii "server") shortFiles .empty 3600) threeLines).map
        (fun r => r.1.pending) = .ok (ascii "ree\n") := by
    decide +kernel
  rw [hrun] at hpending
  have hheld : final.pending = ascii "ree\n" := Except.ok.inj hpending
  refine ⟨final, calls, hrun, ?_, hheld, hclose⟩
  rw [hheld] at hcat
  have hwhole : final.files.cat ++ ascii "ree\n" =
      ascii "one\ntwo\nth" ++ ascii "ree\n" := hcat
  exact List.append_cancel_right hwhole

end LogDirectory

end MyFileServer
