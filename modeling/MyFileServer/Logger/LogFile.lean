import MyFileServer.Logger.AsyncLogging
import MyFileServer.Logger.FileUtil

/-!
# Rolling the log file

`LogFile::append` starts a new file when the current one is too long, and
every `checkEveryN_` appends when the day has changed.  `rollFile` reads the
clock once more and starts at most one file in a second.
-/

namespace MyFileServer

open Execution

def kRollPerSeconds_ : ℤ := 60 * 60 * 24

/-- `now / kRollPerSeconds_ * kRollPerSeconds_`. -/
def dayStart (now : ℤ) : ℤ :=
  now.tdiv kRollPerSeconds_ * kRollPerSeconds_

/-- The constant members. -/
structure LogFileOptions where
  rollSize_ : ℤ
  flushInterval_ : ℤ
  checkEveryN_ : ℤ
  rollSize_nonneg : 0 ≤ rollSize_
  checkEveryN_pos : 1 ≤ checkEveryN_

structure LogFile where
  options : LogFileOptions
  count_ : ℤ
  startOfPeriod_ : ℤ
  lastRoll_ : ℤ
  lastFlush_ : ℤ
  file_ : Option FileUtil

/-- What a call does besides the write: it rolls, it refuses to roll at a
reading of the clock, or it flushes. -/
structure LogFileOutcome where
  rolled : Bool := false
  refusedAt : Option ℤ := none
  flushed : Bool := false
  deriving DecidableEq

namespace LogFile

def rollFile (log : LogFile) (now : ℤ) : LogFile × LogFileOutcome :=
  if log.lastRoll_ < now then
    ({ log with
        lastRoll_ := now
        lastFlush_ := now
        startOfPeriod_ := dayStart now
        file_ := some FileUtil.create },
      { rolled := true })
  else (log, { refusedAt := some now })

/-- `LogFile::LogFile`, with the reading of the clock in `rollFile`. -/
def create (options : LogFileOptions) (now : ℤ) : LogFile :=
  (rollFile { options, count_ := 0, startOfPeriod_ := 0, lastRoll_ := 0, lastFlush_ := 0,
              file_ := none } now).1

/-- `appendInLock` with writes that succeed, and the two readings of the clock
that it makes at most. -/
def appendInLock (log : LogFile) (data : Bytes) (first second : ℤ) :
    Except LogFailure (LogFile × LogFileOutcome) :=
  match log.file_ with
  | none => .error .nullPointer
  | some file =>
      let file := file.appended data data
      let log := { log with file_ := some file }
      if log.options.rollSize_ < file.writtenBytes_ then .ok (log.rollFile first)
      else
        let count_ : ℤ := log.count_ + 1
        if log.options.checkEveryN_ ≤ count_ then
          let log := { log with count_ := 0 }
          if dayStart first ≠ log.startOfPeriod_ then .ok (log.rollFile second)
          else if log.options.flushInterval_ < first - log.lastFlush_ then
            .ok ({ log with lastFlush_ := first }, { flushed := true })
          else .ok (log, {})
        else .ok ({ log with count_ }, {})

def writtenBytes (log : LogFile) : ℤ :=
  (log.file_.map FileUtil.writtenBytes_).getD 0

end LogFile

/-- The log file and the clock at the end of the last call. -/
structure LogFileSystem where
  log : LogFile
  clock : ℤ

/-- A call of `append`: the seconds that pass before it is made, and those
between its two readings of the clock. -/
structure LogFileCall where
  data : Bytes
  before : ℕ
  between : ℕ

namespace LogFileSystem

def create (options : LogFileOptions) (now : ℤ) : LogFileSystem :=
  ⟨LogFile.create options now, now⟩

def step (s : LogFileSystem) (call : LogFileCall) :
    Except LogFailure (LogFileSystem × LogFileOutcome) := do
  let first := s.clock + call.before
  let second := first + call.between
  let (log, outcome) ← s.log.appendInLock call.data first second
  return ({ log, clock := second }, outcome)

end LogFileSystem

/-! ## Days -/

theorem dayStart_mono {s t : ℤ} (hs : 0 ≤ s) (hst : s ≤ t) : dayStart s ≤ dayStart t := by
  unfold dayStart kRollPerSeconds_
  rw [Int.tdiv_eq_ediv_of_nonneg hs, Int.tdiv_eq_ediv_of_nonneg (le_trans hs hst)]
  omega

/-! ## The invariant -/

namespace LogFileSystem

structure Inv (s : LogFileSystem) : Prop where
  file_ne : s.log.file_ ≠ none
  count_nonneg : 0 ≤ s.log.count_
  count_lt : s.log.count_ < s.log.options.checkEveryN_
  period : s.log.startOfPeriod_ = dayStart s.log.lastRoll_
  roll_pos : 0 < s.log.lastRoll_
  roll_le : s.log.lastRoll_ ≤ s.clock

/-- The current file is within its size, or the last call has found the clock
at the second in which the file was opened. -/
def SizeKept (log : LogFile) (outcome : LogFileOutcome) : Prop :=
  log.writtenBytes ≤ log.options.rollSize_ ∨ outcome.refusedAt = some log.lastRoll_

/-- A call on a later day than that of the file rolls or counts on. -/
def CountsOn (log next : LogFile) (outcome : LogFileOutcome) : Prop :=
  outcome.rolled = true ∨
    next.count_ = log.count_ + 1 ∧ next.startOfPeriod_ = log.startOfPeriod_

theorem inv_create {options : LogFileOptions} {now : ℤ} (hnow : 0 < now) :
    (create options now).Inv ∧ (create options now).log.options = options := by
  have hpos := options.checkEveryN_pos
  unfold create LogFile.create LogFile.rollFile
  rw [if_pos hnow]
  refine ⟨⟨by simp, le_refl 0, ?_, rfl, hnow, le_refl now⟩, rfl⟩
  change 0 < options.checkEveryN_
  omega

section

variable {log : LogFile} {now : ℤ}

theorem rollFile_of_lt (hlt : log.lastRoll_ < now) :
    log.rollFile now =
      ({ log with
          lastRoll_ := now
          lastFlush_ := now
          startOfPeriod_ := dayStart now
          file_ := some FileUtil.create },
        { rolled := true }) :=
  if_pos hlt

theorem rollFile_of_eq (hnow : now = log.lastRoll_) :
    log.rollFile now = (log, { refusedAt := some log.lastRoll_ }) := by
  rw [LogFile.rollFile, if_neg (by omega), hnow]

theorem rolled_of_lt (hlt : log.lastRoll_ < now) : (log.rollFile now).2.rolled = true := by
  rw [rollFile_of_lt hlt]

end

/-- What `rollFile` leaves at a reading that is not in front of the last roll. -/
theorem Inv.rollFile {s : LogFileSystem} {log : LogFile} {now clock : ℤ} (hs : s.Inv)
    (hoptions : log.options = s.log.options) (hfile : log.file_ ≠ none)
    (hcount : 0 ≤ log.count_ ∧ log.count_ < log.options.checkEveryN_)
    (hroll : log.lastRoll_ = s.log.lastRoll_) (hperiod : log.startOfPeriod_ = s.log.startOfPeriod_)
    (hnow : s.clock ≤ now) (hclock : now ≤ clock) :
    (⟨(log.rollFile now).1, clock⟩ : LogFileSystem).Inv ∧
      SizeKept (log.rollFile now).1 (log.rollFile now).2 ∧
      (log.rollFile now).1.options = s.log.options := by
  have hle := hs.roll_le
  have hpos := hs.roll_pos
  rcases lt_or_eq_of_le (show log.lastRoll_ ≤ now by omega) with hlt | heq
  · rw [rollFile_of_lt hlt]
    refine ⟨⟨by simp, hcount.1, hcount.2, rfl, by change 0 < now; omega, hclock⟩, ?_, hoptions⟩
    exact Or.inl log.options.rollSize_nonneg
  · rw [rollFile_of_eq heq.symm]
    refine ⟨⟨hfile, hcount.1, hcount.2, ?_, ?_, ?_⟩, Or.inr rfl, hoptions⟩
    · change log.startOfPeriod_ = dayStart log.lastRoll_
      rw [hperiod, hroll]
      exact hs.period
    · change 0 < log.lastRoll_
      omega
    · change log.lastRoll_ ≤ clock
      omega

/-- A reading on a later day lies behind the last roll. -/
theorem Inv.roll_lt {s : LogFileSystem} (hs : s.Inv) {now : ℤ}
    (hlate : s.log.startOfPeriod_ < dayStart now) (hnow : 0 ≤ now) : s.log.lastRoll_ < now := by
  by_contra hnot
  have hmono := dayStart_mono hnow (not_lt.mp hnot)
  rw [← hs.period] at hmono
  omega

theorem Inv.step {s : LogFileSystem} (hs : s.Inv) (call : LogFileCall) :
    ∃ next outcome, s.step call = .ok (next, outcome) ∧ next.Inv ∧
      SizeKept next.log outcome ∧ next.log.options = s.log.options ∧
      (s.log.startOfPeriod_ < dayStart (s.clock + call.before) →
        CountsOn s.log next.log outcome) := by
  obtain ⟨file, hfile⟩ := Option.ne_none_iff_exists'.mp hs.file_ne
  have hcount := hs.count_nonneg
  have hcount' := hs.count_lt
  have hclock : 0 ≤ s.clock := le_of_lt (lt_of_lt_of_le hs.roll_pos hs.roll_le)
  have htime : s.log.lastRoll_ ≤ s.clock + call.before + call.between :=
    le_trans hs.roll_le (by omega)
  have hcountOn : 0 ≤ s.log.count_ + 1 := by omega
  unfold LogFileSystem.step LogFile.appendInLock
  simp only [hfile]
  split_ifs with hsize hcheck hday hflush
  · -- the file is too long
    obtain ⟨hinv, hkept, hoptions⟩ := @Inv.rollFile s
      { s.log with file_ := some (file.appended call.data call.data) } (s.clock + call.before)
      (s.clock + call.before + call.between) hs rfl (by simp) ⟨hcount, hcount'⟩ rfl rfl
      (by omega) (by omega)
    refine ⟨_, _, rfl, hinv, hkept, hoptions, ?_⟩
    intro hlate
    exact Or.inl (rolled_of_lt (hs.roll_lt hlate (by omega)))
  · -- the count is full and the day has changed
    obtain ⟨hinv, hkept, hoptions⟩ := @Inv.rollFile s
      { s.log with count_ := 0, file_ := some (file.appended call.data call.data) }
      (s.clock + call.before + call.between) (s.clock + call.before + call.between) hs rfl
      (by simp) ⟨le_refl 0, lt_of_lt_of_le Int.zero_lt_one s.log.options.checkEveryN_pos⟩ rfl rfl
      (by omega) (le_refl _)
    refine ⟨_, _, rfl, hinv, hkept, hoptions, ?_⟩
    intro hlate
    have hlt := hs.roll_lt hlate (by omega)
    exact Or.inl (rolled_of_lt (lt_of_lt_of_le hlt (by omega)))
  · -- the count is full on the same day, and the file is flushed
    refine ⟨_, _, rfl, ⟨by simp, le_refl 0, ?_, hs.period, hs.roll_pos, htime⟩, ?_, rfl, ?_⟩
    · exact lt_of_lt_of_le Int.zero_lt_one s.log.options.checkEveryN_pos
    · exact Or.inl (not_lt.mp hsize)
    · intro hlate
      exact absurd (not_not.mp hday) (ne_of_gt hlate)
  · refine ⟨_, _, rfl, ⟨by simp, le_refl 0, ?_, hs.period, hs.roll_pos, htime⟩, ?_, rfl, ?_⟩
    · exact lt_of_lt_of_le Int.zero_lt_one s.log.options.checkEveryN_pos
    · exact Or.inl (not_lt.mp hsize)
    · intro hlate
      exact absurd (not_not.mp hday) (ne_of_gt hlate)
  · -- the call is only counted
    refine ⟨_, _, rfl, ⟨by simp, hcountOn, not_le.mp hcheck, hs.period, hs.roll_pos, htime⟩, ?_,
      rfl, ?_⟩
    · exact Or.inl (not_lt.mp hsize)
    · exact fun _ => Or.inr ⟨rfl, rfl⟩

/-! ## Every run -/

/-- When a call of a run is made. -/
def madeAt (call : Call LogFileSystem LogFileCall LogFileOutcome) : ℤ :=
  call.pre.clock + call.input.before

/-- The old file is replaced by a new one, whose second is a reading of the clock
in the call. -/
structure Replaced (call : Call LogFileSystem LogFileCall LogFileOutcome)
    (next : LogFileSystem) : Prop where
  file_eq : next.log.file_ = some FileUtil.create
  later : call.pre.log.lastRoll_ < next.log.lastRoll_
  reading : next.log.lastRoll_ = madeAt call ∨
    next.log.lastRoll_ = madeAt call + call.input.between

theorem rollFile_rolled {log next : LogFile} {now : ℤ} {outcome : LogFileOutcome}
    (hroll : log.rollFile now = (next, outcome)) :
    outcome.rolled = true ∧ next.file_ = some FileUtil.create ∧
        log.lastRoll_ < next.lastRoll_ ∧ next.lastRoll_ = now ∨
      outcome.rolled = false ∧ next.lastRoll_ = log.lastRoll_ := by
  unfold LogFile.rollFile at hroll
  split_ifs at hroll with hlt
  · cases hroll
    exact .inl ⟨rfl, rfl, hlt, rfl⟩
  · cases hroll
    exact .inr ⟨rfl, rfl⟩

/-- Only a call that rolls has another second for its file. -/
theorem rolled_iff {s next : LogFileSystem} {call : LogFileCall} {outcome : LogFileOutcome}
    (hstep : s.step call = .ok (next, outcome)) :
    outcome.rolled = true ↔ Replaced ⟨s, call, outcome⟩ next := by
  obtain ⟨⟨log, made⟩, hlog, hresult⟩ := bind_eq_ok.mp hstep
  cases hresult
  have hquiet (hrolled : outcome.rolled = false) (hsame : log.lastRoll_ = s.log.lastRoll_) :
      outcome.rolled = true ↔ Replaced ⟨s, call, outcome⟩
        ⟨log, s.clock + call.before + call.between⟩ :=
    iff_of_false (by rw [hrolled]; decide) fun h => absurd hsame (ne_of_gt h.later)
  unfold LogFile.appendInLock at hlog
  split at hlog
  next => cases hlog
  next file _ =>
      dsimp only at hlog
      split_ifs at hlog
      · rcases rollFile_rolled (Except.ok.inj hlog) with
          ⟨hrolled, hfile, hlater, hnow⟩ | ⟨hrolled, hsame⟩
        · exact iff_of_true hrolled ⟨hfile, hlater, .inl hnow⟩
        · exact hquiet hrolled hsame
      · rcases rollFile_rolled (Except.ok.inj hlog) with
          ⟨hrolled, hfile, hlater, hnow⟩ | ⟨hrolled, hsame⟩
        · exact iff_of_true hrolled ⟨hfile, hlater, .inr hnow⟩
        · exact hquiet hrolled hsame
      · cases hlog
        exact hquiet rfl rfl
      · cases hlog
        exact hquiet rfl rfl
      · cases hlog
        exact hquiet rfl rfl

/-- Calls on a later day than that of the file, none of which rolls, add up in
`count_`. -/
theorem Inv.length_lt {s final : LogFileSystem} {inputs : List LogFileCall} {calls}
    (hs : s.Inv) (hrun : run LogFileSystem.step s inputs = .ok (final, calls))
    (hlate : ∀ call ∈ calls, s.log.startOfPeriod_ < dayStart (madeAt call))
    (hnone : ∀ call ∈ calls, call.output.rolled = false) :
    s.log.count_ + calls.length < s.log.options.checkEveryN_ := by
  induction inputs generalizing s calls with
  | nil =>
      obtain ⟨_, rfl⟩ := run_nil_eq_ok.mp hrun
      simpa using hs.count_lt
  | cons input inputs ih =>
      obtain ⟨next, output, rest, hstep, hrest, rfl⟩ := run_cons_eq_ok.mp hrun
      obtain ⟨hfirst, hlater⟩ := List.forall_mem_cons.mp hlate
      obtain ⟨hquiet, hquiets⟩ := List.forall_mem_cons.mp hnone
      obtain ⟨next', output', hstep', hnext, _, hoptions, hcounts⟩ := hs.step input
      rw [hstep] at hstep'
      cases hstep'
      rcases hcounts hfirst with hrolled | ⟨hcount, hperiod⟩
      · rw [hrolled] at hquiet
        cases hquiet
      · rw [← hperiod] at hlater
        have htail := ih hnext hrest hlater hquiets
        rw [hcount, hoptions] at htail
        rw [List.length_cons]
        push_cast
        omega

theorem Inv.run {options : LogFileOptions} {s final : LogFileSystem} {inputs : List LogFileCall}
    {calls} (hs : s.Inv ∧ s.log.options = options)
    (hrun : Execution.run LogFileSystem.step s inputs = .ok (final, calls)) :
    (final.Inv ∧ final.log.options = options) ∧
      ∀ call ∈ calls, call.pre.Inv ∧ call.pre.log.options = options := by
  have hstep : ∀ s input next output, (s.Inv ∧ s.log.options = options) → True →
      LogFileSystem.step s input = .ok (next, output) →
      next.Inv ∧ next.log.options = options := by
    intro s input next output hs _ hnext
    obtain ⟨next', output', hnext', hinv, _, hoptions, _⟩ := hs.1.step input
    rw [hnext] at hnext'
    cases hnext'
    exact ⟨hinv, hoptions.trans hs.2⟩
  exact run_invariant hstep hrun hs fun _ _ => trivial

/-- Among `checkEveryN_` calls on a later day one rolls. -/
theorem Inv.exists_rolled {s final : LogFileSystem} {inputs : List LogFileCall} {calls}
    (hs : s.Inv) (hrun : Execution.run LogFileSystem.step s inputs = .ok (final, calls))
    (hlong : (calls.length : ℤ) = s.log.options.checkEveryN_)
    (hlate : ∀ call ∈ calls, s.log.startOfPeriod_ < dayStart (madeAt call)) :
    ∃ call ∈ calls, call.output.rolled = true := by
  by_contra hnone
  have hquiet : ∀ call ∈ calls, call.output.rolled = false := by
    intro call hcall
    by_contra hrolled
    exact hnone ⟨call, hcall, by simpa using hrolled⟩
  have hlt := hs.length_lt hrun hlate hquiet
  have hcount := hs.count_nonneg
  omega

/-- Every run of calls under a clock that is positive and never goes back: no
call fails, the start of the period is the day of the last roll, a file that
is too long was opened in the second of the last reading, and among
`checkEveryN_` calls on a later day one replaces the file. -/
theorem rolling_discipline (options : LogFileOptions) {now : ℤ} (hnow : 0 < now)
    (inputs : List LogFileCall) :
    ∃ final calls, run LogFileSystem.step (create options now) inputs = .ok (final, calls) ∧
      final.log.startOfPeriod_ = dayStart final.log.lastRoll_ ∧
      (∀ call ∈ calls, call.pre.log.startOfPeriod_ = dayStart call.pre.log.lastRoll_ ∧
        ∃ next, call.pre.step call.input = .ok (next, call.output) ∧
          SizeKept next.log call.output ∧
          (call.output.rolled = true ↔ Replaced call next)) ∧
      ∀ before first rest after, calls = before ++ (first :: rest ++ after) →
        ((first :: rest).length : ℤ) = options.checkEveryN_ →
        (∀ call ∈ first :: rest, first.pre.log.startOfPeriod_ < dayStart (madeAt call)) →
        ∃ call ∈ first :: rest, call.output.rolled = true ∧
          ∃ next, call.pre.step call.input = .ok (next, call.output) ∧
            Replaced call next := by
  have hcreate := @inv_create options now hnow
  have hstep : ∀ s input, Inv s →
      ∃ next output, LogFileSystem.step s input = .ok (next, output) ∧ Inv next ∧ True := by
    intro s input hs
    obtain ⟨next, output, hnext, hinv, _⟩ := hs.step input
    exact ⟨next, output, hnext, hinv, trivial⟩
  obtain ⟨final, calls, hrun, hfinal, _⟩ := run_total hstep hcreate.1 inputs
  have hcalls := (Inv.run hcreate hrun).2
  refine ⟨final, calls, hrun, hfinal.period, ?_, ?_⟩
  · intro call hcall
    obtain ⟨hinv, _⟩ := hcalls call hcall
    obtain ⟨next, hnext⟩ := run_call hrun call hcall
    obtain ⟨next', output', hnext', _, hkept, _⟩ := hinv.step call.input
    rw [hnext] at hnext'
    cases hnext'
    exact ⟨hinv.period, next, hnext, hkept, rolled_iff hnext⟩
  · intro before first rest after hsplit hlong hlate
    rw [hsplit] at hrun
    obtain ⟨start, _, hrest⟩ := run_split hrun
    obtain ⟨mid, hwindow, _⟩ := run_split hrest
    have hstart : start = first.pre := by
      rw [List.map_cons] at hwindow
      obtain ⟨_, _, _, _, _, hcons⟩ := run_cons_eq_ok.mp hwindow
      exact (congrArg Call.pre (List.cons.inj hcons).1).symm
    obtain ⟨hinv, hoptions⟩ := hcalls first (by simp [hsplit])
    rw [hstart] at hwindow
    obtain ⟨call, hcall, hrolled⟩ :=
      hinv.exists_rolled hwindow (by rw [hlong, hoptions]) hlate
    obtain ⟨next, hnext⟩ := run_call hwindow call hcall
    exact ⟨call, hcall, hrolled, next, hnext, (rolled_iff hnext).mp hrolled⟩

/-- Two lines on the second day of 1970, after a start in the last second of
the first one. -/
def newDayCalls : List LogFileCall := [⟨ascii "one\n", 1, 0⟩, ⟨ascii "two\n", 0, 0⟩]

def newDayOptions : LogFileOptions := ⟨1000, 3, 2, by decide, by decide⟩

theorem newDay_run :
    (run LogFileSystem.step (create newDayOptions 86399) newDayCalls).map (fun r =>
        r.2.map fun call => (call.pre.log.startOfPeriod_, madeAt call)) =
      .ok [(0, 86400), (0, 86400)] := rfl

theorem rolling_discipline_new_day :
    ∃ final calls, run LogFileSystem.step (create newDayOptions 86399) newDayCalls =
        .ok (final, calls) ∧
      final.log.startOfPeriod_ = dayStart final.log.lastRoll_ ∧
      ∃ call ∈ calls, ∃ next, Replaced call next := by
  obtain ⟨final, calls, hrun, hperiod, _, hrolls⟩ :=
    rolling_discipline newDayOptions (show (0 : ℤ) < 86399 by decide) newDayCalls
  have htimes := newDay_run
  rw [hrun] at htimes
  have hlist := Except.ok.inj htimes
  obtain ⟨first, rest, rfl, hfirst, hrest⟩ := List.map_eq_cons_iff.mp hlist
  obtain ⟨second, nothing, rfl, hsecond, hnothing⟩ := List.map_eq_cons_iff.mp hrest
  obtain rfl := List.map_eq_nil_iff.mp hnothing
  have hlate : ∀ call ∈ [first, second],
      first.pre.log.startOfPeriod_ < dayStart (madeAt call) := by
    simp only [Prod.mk.injEq] at hfirst hsecond
    simp only [List.mem_cons, List.not_mem_nil, or_false, forall_eq_or_imp, forall_eq, hfirst,
      hsecond]
    decide
  obtain ⟨call, hcall, _, next, _, hreplaced⟩ := hrolls [] first [second] [] rfl rfl hlate
  exact ⟨final, _, hrun, hperiod, call, hcall, next, hreplaced⟩

end LogFileSystem

end MyFileServer
