import MyFileServer.Logger.LogDirectory
import MyFileServer.Logger.LogStop

/-!
# From a line to the files

The back end of the log makes a `LogFile` when it starts, passes every buffer to
it, and flushes it behind every round.  What is in the files of the directory,
in the order of their names, is then made of the lines in the order in which the
threads appended them, each buffer of lines with the bytes that lie behind its
cursor.
-/

namespace MyFileServer

open Execution

theorem one_le_1024 : (1 : ℤ) ≤ 1024 := by
  decide

/-- `LogFile output(basename_, rollSize_, false)`: the third argument is the
interval of the flushes. -/
def outputOptions (rollSize_ : ℤ) (hsize : 0 ≤ rollSize_) : LogFileOptions where
  rollSize_ := rollSize_
  flushInterval_ := 0
  checkEveryN_ := 1024
  rollSize_nonneg := hsize
  checkEveryN_pos := one_le_1024

/-- The log with the files that it writes. -/
structure LogPipeline where
  front : LogSystem
  output : Option LogDirectory

/-- A step; if it writes, with the seconds that pass in it and how far the
stream goes. -/
structure PipelineInput where
  input : LogInput
  before : ℕ
  between : ℕ
  drains : ℕ

def PipelineInput.seconds (call : PipelineInput) : ℕ :=
  call.before + call.between

namespace LogPipeline

/-- What the log is made for: the name, the size and the directory, and the
clock when the back end starts. -/
structure Setting where
  localtime : ℤ → Tm
  basename_ : Bytes
  rollSize_ : ℤ
  rollSize_nonneg : 0 ≤ rollSize_
  files : Listing FileName UInt8
  now : ℤ

def initial : LogPipeline where
  front := LogSystem.initial
  output := none

section

variable (setting : Setting)

def Setting.open (setting : Setting) : LogDirectory :=
  LogDirectory.create setting.localtime setting.basename_
    (outputOptions setting.rollSize_ setting.rollSize_nonneg) setting.files setting.now

/-- `output.append(buffer->data(), buffer->length())`. -/
def appendCall (buffer : LogBuffer) (call : PipelineInput) : DirectoryCall :=
  ⟨⟨buffer.data_.take buffer.length, call.before, call.between⟩, call.drains⟩

def pass (output : LogDirectory) (call : DirectoryCall) : Except LogFailure LogDirectory := do
  let (output, _) ← output.step setting.localtime setting.basename_ call
  return output

/-- `output.flush()`. -/
def flush (s : LogPipeline) : Except LogFailure LogPipeline := do
  let output ← deref s.output
  let output ← output.flush
  return { s with output := some output }

/-- Behind every round the output is flushed, and behind the last one it is
destroyed too, when nothing is left in it. -/
def step (s : LogPipeline) (call : PipelineInput) :
    Except LogFailure (LogPipeline × Unit) := do
  let front ← s.front.next call.input
  match call.input, s.front.backEnd with
  | .enter, _ => return ({ front, output := some setting.open }, ())
  | .write, .writing _ _ buffersToWrite next => do
      let output ← deref s.output
      let buffer ← deref buffersToWrite[next]?
      let output ← pass setting output (appendCall buffer call)
      return ({ front, output := some output }, ())
  | .recycle, _ => return (← flush { s with front }, ())
  | .test, _ =>
      if s.front.log.running_ then return ({ s with front }, ())
      else return (← flush { s with front }, ())
  | _, _ => return ({ s with front }, ())

/-- What the directory holds. -/
def cat (s : LogPipeline) : Bytes :=
  match s.output with
  | some output => output.files.cat
  | none => setting.files.cat

end

/-- What the stream of the open file holds back. -/
def pending (s : LogPipeline) : Bytes :=
  match s.output with
  | some output => output.pending
  | none => []

/-- Between the first write of a round and its flush. -/
def writes : BackEnd → Bool
  | .writing _ _ _ _ => true
  | _ => false

/-- The bytes of the lines that are in no file yet. -/
def waiting (s : LogPipeline) : Bytes :=
  usedBytes s.front.backEnd.toWrite ++ s.front.log.frontBytes

/-- The back end has made its `LogFile`. -/
def started : BackEnd → Bool
  | .noThread | .created => false
  | _ => true

section

variable {setting : Setting} {last : ℤ} {n : ℕ} {s : LogPipeline}

/-- The log with at most `n` seconds to come. -/
structure Inv (setting : Setting) (last : ℤ) (n : ℕ) (s : LogPipeline) : Prop where
  front : s.front.Inv
  unstarted : s.output = none → s.front.passed = [] ∧ setting.now + n ≤ last
  started : started s.front.backEnd = s.output.isSome
  listed : ∀ output ∈ s.output,
    output.system.clock + n ≤ last ∧
      (writes s.front.backEnd = false → output.pending = []) ∧
      LogDirectory.Listed setting.localtime setting.basename_ setting.now
        (setting.files.cat ++ s.front.written) output

theorem Inv.keep (hs : Inv setting last n s) {front : LogSystem} (hfront : front.Inv)
    (hpassed : front.passed = s.front.passed)
    (hstarted : LogPipeline.started front.backEnd = LogPipeline.started s.front.backEnd)
    (hwrites : writes front.backEnd = false → writes s.front.backEnd = false) :
    Inv setting last n { s with front } where
  front := hfront
  unstarted := fun hnone => by rw [hpassed]; exact hs.unstarted hnone
  started := hstarted.trans hs.started
  listed := by
    intro output houtput
    obtain ⟨hclock, hquiet, hlisted⟩ := hs.listed output houtput
    unfold LogSystem.written
    rw [hpassed]
    exact ⟨hclock, fun hnot => hquiet (hwrites hnot), hlisted⟩

/-- A flush behind the last write of a round. -/
theorem Inv.flush (hs : Inv setting last n s) {front : LogSystem} (hfront : front.Inv)
    (hpassed : front.passed = s.front.passed) (hwas : LogPipeline.started s.front.backEnd = true)
    (his : LogPipeline.started front.backEnd = true) :
    ∃ next, flush { s with front } = .ok next ∧ next.front = front ∧
      Inv setting last n next := by
  obtain ⟨output, houtput⟩ : ∃ output, s.output = some output :=
    Option.isSome_iff_exists.mp (hs.started.symm.trans hwas)
  obtain ⟨htime, _, hlisted⟩ := hs.listed output houtput
  obtain ⟨next, hflush, hsystem, hnothing, hnext⟩ := hlisted.flush
  have hflushed : LogPipeline.flush { s with front } = .ok ⟨front, some next⟩ := by
    unfold LogPipeline.flush
    simp only [houtput, deref, hflush, bind, Except.bind, pure, Except.pure]
  refine ⟨_, hflushed, rfl, hfront, (fun habsurd => by cases habsurd), his, ?_⟩
  rintro output' ⟨rfl⟩
  refine ⟨by rw [hsystem]; exact htime, fun _ => hnothing, ?_⟩
  unfold LogSystem.written
  rw [hpassed]
  exact hnext

theorem Inv.less {m : ℕ} (hs : Inv setting last m s) (hle : n ≤ m) : Inv setting last n s where
  front := hs.front
  unstarted := fun hnone => ⟨(hs.unstarted hnone).1, by have := (hs.unstarted hnone).2; omega⟩
  started := hs.started
  listed := fun output houtput =>
    ⟨by have := (hs.listed output houtput).1; omega, (hs.listed output houtput).2⟩

theorem Inv.enter (hnow : 0 < setting.now)
    (holder : ∀ name ∈ setting.files.names,
      name ≤ getLogFileName setting.basename_ (setting.localtime setting.now))
    (hs : Inv setting last n s) {front : LogSystem} (hfront : front.Inv)
    (hpassed : front.passed = s.front.passed)
    (hwas : LogPipeline.started s.front.backEnd = false)
    (his : LogPipeline.started front.backEnd = true) :
    Inv setting last n { front, output := some setting.open } := by
  have hnone : s.output = none :=
    Option.isNone_iff_eq_none.mp (by simpa [hwas] using hs.started.symm)
  obtain ⟨hnothing, htime⟩ := hs.unstarted hnone
  obtain ⟨hclock, hquiet, hlisted⟩ := LogDirectory.listed_create
    (outputOptions setting.rollSize_ setting.rollSize_nonneg) hnow holder
  have hwritten : front.written = [] := by
    unfold LogSystem.written
    rw [hpassed, hnothing]
    rfl
  refine ⟨hfront, (fun habsurd => by cases habsurd), his, ?_⟩
  rintro output ⟨rfl⟩
  refine ⟨(congrArg (· + (n : ℤ)) hclock).trans_le htime, fun _ => hquiet, ?_⟩
  rw [hwritten, List.append_nil]
  exact hlisted

/-- One buffer of a round. -/
theorem Inv.write (hlocal : GoesForward setting.localtime setting.now last)
    {call : PipelineInput} (hs : Inv setting last (call.seconds + n) s) {front : LogSystem}
    (hfront : front.Inv) {buffer : LogBuffer}
    (hpassed : front.passed = s.front.passed ++ [buffer])
    (hwrites : writes front.backEnd = true) (his : LogPipeline.started front.backEnd = true)
    {output : LogDirectory} (houtput : s.output = some output) :
    ∃ after, pass setting output (appendCall buffer call) = .ok after ∧
      Inv setting last n { front, output := some after } := by
  obtain ⟨htime, _, hlisted⟩ := hs.listed output houtput
  unfold PipelineInput.seconds at htime
  have hsoon : output.system.clock + (appendCall buffer call).before +
      (appendCall buffer call).between ≤ last := by
    dsimp only [appendCall]
    omega
  obtain ⟨after, outcome, hstep, hclock, hafter⟩ := hlisted.step hlocal hsoon
  refine ⟨after, bind_eq_ok.mpr ⟨_, hstep, rfl⟩, hfront, (fun habsurd => by cases habsurd), his, ?_⟩
  rintro output' ⟨rfl⟩
  refine ⟨?_, (fun hnot => by rw [hwrites] at hnot; cases hnot), ?_⟩
  · rw [hclock]
    dsimp only [appendCall]
    omega
  · unfold LogSystem.written
    rw [hpassed, List.flatMap_append, List.flatMap_singleton, ← List.append_assoc]
    exact hafter

/-- Whatever the log can do it does with the files too. -/
theorem Inv.follow (hnow : 0 < setting.now)
    (holder : ∀ name ∈ setting.files.names,
      name ≤ getLogFileName setting.basename_ (setting.localtime setting.now))
    (hlocal : GoesForward setting.localtime setting.now last) {call : PipelineInput}
    (hs : Inv setting last (call.seconds + n) s) {front : LogSystem}
    (hnext : s.front.next call.input = .ok front) :
    ∃ next, s.step setting call = .ok (next, ()) ∧ next.front = front ∧
      Inv setting last n next := by
  have hinv : front.Inv := (hs.front.next call.input).of_eq_ok hnext
  have hkept := hs.less (Nat.le_add_left n call.seconds)
  obtain ⟨input, before, between, drains⟩ := call
  unfold LogPipeline.step
  dsimp only at hnext hs ⊢
  rw [hnext]
  cases LogSystem.transition_of_next hnext with
  | append happend => exact ⟨_, rfl, rfl, hkept.keep hinv rfl rfl id⟩
  | start hback =>
      exact ⟨_, rfl, rfl, hkept.keep hinv rfl (by rw [hback]; rfl) fun _ => by rw [hback]; rfl⟩
  | wait hback =>
      exact ⟨_, rfl, rfl, hkept.keep hinv rfl (by rw [hback]; rfl) fun _ => by rw [hback]; rfl⟩
  | stop hthread hfirst => exact ⟨_, rfl, rfl, hkept.keep hinv rfl rfl id⟩
  | test hback =>
      cases hrunning : s.front.log.running_ with
      | true =>
          rw [hrunning] at hinv
          refine ⟨_, rfl, rfl, hkept.keep hinv rfl ?_ fun _ => by rw [hback]; rfl⟩
          rw [hback]
          rfl
      | false =>
          rw [hrunning] at hinv
          obtain ⟨next, hflush, hfront, hafter⟩ := hkept.flush hinv rfl (by rw [hback]; rfl) rfl
          exact ⟨next, bind_eq_ok.mpr ⟨_, rfl, bind_eq_ok.mpr ⟨next, hflush, rfl⟩⟩, hfront, hafter⟩
  | recycle hback hrecycle =>
      have hready := hs.front.spares
      rw [hback] at hready
      obtain ⟨spare1, spare2, hatHead, _⟩ := AsyncLogging.recycle_ready hready
      obtain rfl := Except.ok.inj (hatHead.symm.trans hrecycle)
      obtain ⟨next, hflush, hfront, hafter⟩ := hkept.flush hinv rfl (by rw [hback]; rfl) rfl
      exact ⟨next, bind_eq_ok.mpr ⟨_, rfl, bind_eq_ok.mpr ⟨next, hflush, rfl⟩⟩, hfront, hafter⟩
  | swap hinput hback hswap =>
      obtain ⟨_, buffer2, buffersToWrite, rfl, _⟩ := AsyncLogging.swap_eq_ok hswap
      have hwas : LogPipeline.started s.front.backEnd = true := by
        rcases hback with hback | hback <;> rw [hback] <;> rfl
      rcases hinput with rfl | rfl <;>
        exact ⟨_, rfl, rfl, hkept.keep hinv rfl (by rw [hwas]; rfl) fun habsurd => by cases habsurd⟩
  | enter hback =>
      exact ⟨_, rfl, rfl, hkept.enter hnow holder hinv rfl (by rw [hback]; rfl) rfl⟩
  | @write buffer1 buffer2 buffersToWrite next buffer hback hget =>
      obtain ⟨output, houtput⟩ : ∃ output, s.output = some output := by
        have hstarted := hs.started
        rw [hback] at hstarted
        exact Option.isSome_iff_exists.mp hstarted.symm
      obtain ⟨after, hpass, hafter⟩ := hs.write hlocal hinv rfl rfl rfl houtput
      simp only [hback, houtput, hget, deref, hpass, bind, Except.bind, pure, Except.pure]
      exact ⟨_, rfl, rfl, hafter⟩

theorem Inv.step (hnow : 0 < setting.now)
    (holder : ∀ name ∈ setting.files.names,
      name ≤ getLogFileName setting.basename_ (setting.localtime setting.now))
    (hlocal : GoesForward setting.localtime setting.now last) (call : PipelineInput)
    (hs : Inv setting last (call.seconds + n) s) :
    Ends LogSystem.Disabled (fun r => Inv setting last n r.1) (s.step setting call) := by
  have hfront := hs.front.next call.input
  cases hnext : s.front.next call.input with
  | error failure =>
      rw [hnext] at hfront
      unfold LogPipeline.step
      rw [hnext]
      exact hfront
  | ok front =>
      obtain ⟨next, hstep, _, hafter⟩ := hs.follow hnow holder hlocal hnext
      rw [hstep]
      exact hafter

theorem inv_initial (hlast : setting.now + n ≤ last) : Inv setting last n initial where
  front := LogSystem.inv_initial
  unstarted := fun _ => ⟨rfl, hlast⟩
  started := rfl
  listed := fun output houtput => by cases houtput

theorem front_of_flush {next : LogPipeline} (h : flush s = .ok next) :
    next.front = s.front := by
  obtain ⟨_, _, hflush⟩ := bind_eq_ok.mp h
  obtain ⟨_, _, hdone⟩ := bind_eq_ok.mp hflush
  cases hdone
  rfl

/-- The log does what it does without the files. -/
theorem front_of_step {call : PipelineInput} {next : LogPipeline} {output : Unit}
    (h : s.step setting call = .ok (next, output)) :
    s.front.step call.input = .ok (next.front, ()) := by
  unfold LogPipeline.step at h
  obtain ⟨front, hfront, hrest⟩ := bind_eq_ok.mp h
  refine LogSystem.step_eq_ok.mpr (hfront.trans (congrArg Except.ok ?_))
  split at hrest
  · cases hrest
    rfl
  · obtain ⟨_, _, hbuffer⟩ := bind_eq_ok.mp hrest
    obtain ⟨_, _, hpass⟩ := bind_eq_ok.mp hbuffer
    obtain ⟨_, _, hdone⟩ := bind_eq_ok.mp hpass
    cases hdone
    rfl
  · obtain ⟨_, hflush, hdone⟩ := bind_eq_ok.mp hrest
    cases hdone
    exact (front_of_flush hflush).symm
  · split at hrest
    · cases hrest
      rfl
    · obtain ⟨_, hflush, hdone⟩ := bind_eq_ok.mp hrest
      cases hdone
      exact (front_of_flush hflush).symm
  · cases hrest
    rfl

theorem front_of_run {inputs : List PipelineInput} {final : LogPipeline} {calls}
    (hrun : run (LogPipeline.step setting) s inputs = .ok (final, calls)) :
    ∃ calls, run LogSystem.step s.front (inputs.map (·.input)) = .ok (final.front, calls) := by
  induction inputs generalizing s calls with
  | nil =>
      obtain ⟨rfl, _⟩ := run_nil_eq_ok.mp hrun
      exact ⟨[], rfl⟩
  | cons call inputs ih =>
      obtain ⟨next, output, rest, hfirst, hrest, _⟩ := run_cons_eq_ok.mp hrun
      obtain ⟨calls, hcalls⟩ := ih hrest
      exact ⟨_, run_cons_eq_ok.mpr ⟨next.front, (), calls, front_of_step hfirst, hcalls, rfl⟩⟩

theorem Inv.run_follow (hnow : 0 < setting.now)
    (holder : ∀ name ∈ setting.files.names,
      name ≤ getLogFileName setting.basename_ (setting.localtime setting.now))
    (hlocal : GoesForward setting.localtime setting.now last) {inputs : List PipelineInput}
    (hs : Inv setting last (inputs.map PipelineInput.seconds).sum s) {front : LogSystem} {made}
    (hrun : run LogSystem.step s.front (inputs.map (·.input)) = .ok (front, made)) :
    ∃ final calls, run (LogPipeline.step setting) s inputs = .ok (final, calls) ∧
      final.front = front ∧ Inv setting last 0 final := by
  induction inputs generalizing s made with
  | nil =>
      obtain ⟨rfl, _⟩ := run_nil_eq_ok.mp hrun
      exact ⟨s, [], rfl, rfl, hs⟩
  | cons call inputs ih =>
      obtain ⟨middle, output, rest, hfirst, hrest, _⟩ := run_cons_eq_ok.mp hrun
      obtain ⟨next, hstep, hfront, hafter⟩ :=
        hs.follow hnow holder hlocal (LogSystem.step_eq_ok.mp hfirst)
      obtain ⟨final, calls, hcalls, hfinal⟩ := ih hafter (hfront ▸ hrest)
      exact ⟨final, _, run_cons_eq_ok.mpr ⟨next, (), calls, hstep, hcalls, rfl⟩, hfinal⟩

/-- The bytes behind the cursor of a buffer. -/
def behind (buffer : LogBuffer) : Bytes :=
  buffer.data_.drop buffer.cur_

theorem used_behind (buffer : LogBuffer) :
    buffer.used ++ behind buffer = buffer.data_.take buffer.length := by
  have hwhole : buffer.data_.take buffer.length = buffer.data_ :=
    List.take_of_length_le buffer.length_data.le
  rw [hwhole]
  exact List.take_append_drop buffer.cur_ buffer.data_

/-- What is promised of the files and of the lines that the threads have
appended: the files hold them in pieces of the size of a buffer, up to what the
stream of the open file holds back during a round. -/
structure Delivered (setting : Setting) (lines : List Bytes) (s : LogPipeline) : Prop where
  pieces : ∃ pieces : List (Bytes × Bytes),
    s.cat setting ++ s.pending =
        setting.files.cat ++ pieces.flatMap (fun piece => piece.1 ++ piece.2) ∧
      (∀ piece ∈ pieces, (piece.1 ++ piece.2).length = kLargeBuffer ∧ piece.2 ≠ []) ∧
      pieces.flatMap (·.1) ++ s.waiting = stored lines
  held : s.pending.length ≤ streamBuffer
  flushed : writes s.front.backEnd = false → s.pending = []

theorem Inv.cat_eq (hs : Inv setting last n s) :
    s.cat setting ++ s.pending = setting.files.cat ++ s.front.written := by
  unfold cat pending
  cases houtput : s.output with
  | none =>
      obtain ⟨hpassed, _⟩ := hs.unstarted houtput
      simp [LogSystem.written, hpassed]
  | some output => exact (hs.listed output houtput).2.2.cat_eq

theorem Inv.pending_le (hs : Inv setting last n s) : s.pending.length ≤ streamBuffer := by
  unfold pending
  cases houtput : s.output with
  | none => exact Nat.zero_le _
  | some output => exact (hs.listed output houtput).2.2.held

theorem Inv.pending_eq_nil (hs : Inv setting last n s)
    (hquiet : writes s.front.backEnd = false) : s.pending = [] := by
  unfold pending
  cases houtput : s.output with
  | none => rfl
  | some output => exact (hs.listed output houtput).2.1 hquiet

theorem Inv.delivered (hs : Inv setting last n s) : Delivered setting s.front.appended s := by
  refine ⟨⟨s.front.passed.map fun buffer => (buffer.used, behind buffer), ?_, ?_, ?_⟩,
    hs.pending_le, hs.pending_eq_nil⟩
  · rw [hs.cat_eq, List.flatMap_map]
    simp only [used_behind]
    rfl
  · intro piece hpiece
    obtain ⟨buffer, _, rfl⟩ := List.mem_map.mp hpiece
    have hlength := buffer.length_data
    have hcur := buffer.cur_lt
    constructor
    · dsimp only
      rw [used_behind, List.length_take, hlength]
      exact min_self _
    · refine List.ne_nil_of_length_pos ?_
      dsimp only [behind]
      rw [List.length_drop]
      omega
  · have hbytes := hs.front.bytes_eq
    rw [usedBytes_append, List.append_assoc] at hbytes
    rw [List.flatMap_map]
    exact hbytes

/-- In every interleaving of the threads that log with the back end: no null
pointer is used, and what the directory holds, in the order of its names, is
what it held before and then the lines in the order in which they were
appended, cut into buffers and each buffer filled up with the bytes behind its
cursor; the lines that are not there yet wait in the buffers, and behind every
round the files hold all that was written. -/
theorem delivered_of_run (hnow : 0 < setting.now)
    (holder : ∀ name ∈ setting.files.names,
      name ≤ getLogFileName setting.basename_ (setting.localtime setting.now))
    {inputs : List PipelineInput}
    (hlocal : GoesForward setting.localtime setting.now
      (setting.now + (inputs.map PipelineInput.seconds).sum)) :
    Ends LogSystem.Disabled
      (fun r => Delivered setting (inputs.flatMap fun call => LogSystem.lines call.input) r.1)
      (run (LogPipeline.step setting) initial inputs) := by
  have hstep : ∀ n s (call : PipelineInput), True →
      Inv setting (setting.now + (inputs.map PipelineInput.seconds).sum) (call.seconds + n) s →
      Ends LogSystem.Disabled
        (fun r => Inv setting (setting.now + (inputs.map PipelineInput.seconds).sum) n r.1)
        (s.step setting call) :=
    fun n s call _ hs => hs.step hnow holder hlocal call
  have hends := Ends.run_budget hstep (fun _ _ => trivial) (inv_initial (le_refl _))
  cases hrun : run (LogPipeline.step setting) initial inputs with
  | error failure =>
      rw [hrun] at hends
      exact hends
  | ok r =>
      rw [hrun] at hends
      obtain ⟨calls, hfront⟩ := front_of_run hrun
      have happended := LogSystem.appended_of_run hfront
      have hdelivered := hends.1.delivered
      rw [happended, List.flatMap_map] at hdelivered
      exact hdelivered

end

/-! ### One line -/

def oneDay : Setting where
  localtime := LogDirectory.firstDay
  basename_ := ascii "server"
  rollSize_ := 1024
  rollSize_nonneg := Int.natCast_nonneg 1024
  files := .empty
  now := 3600

/-- A line is appended before the back end starts, written a second later, and
flushed at the end of the round. -/
def helloWritten : List PipelineInput :=
  [⟨.append (ascii "hello") LogMemory.zero, 0, 0, 0⟩, ⟨.start, 0, 0, 0⟩, ⟨.enter, 0, 0, 0⟩,
    ⟨.test, 0, 0, 0⟩, ⟨.lock, 0, 0, 0⟩, ⟨.wake, 0, 0, 0⟩, ⟨.write, 1, 0, 0⟩,
    ⟨.recycle, 0, 0, 0⟩]

theorem front_hello (hfit : (ascii "hello").length < kLargeBuffer) : ∃ front calls,
    run LogSystem.step LogSystem.initial (helloWritten.map (·.input)) = .ok (front, calls) ∧
      front.passed = [LogBuffer.zeroed.append (ascii "hello")] ∧
      writes front.backEnd = false :=
  ⟨_, _, run_cons_eq_ok.mpr ⟨_, (), _, LogSystem.step_append_initial hfit LogMemory.zero, rfl,
    rfl⟩, rfl, rfl⟩

theorem delivered_of_run_hello : ∃ final calls,
    run (LogPipeline.step oneDay) initial helloWritten = .ok (final, calls) ∧
      Delivered oneDay [ascii "hello"] final ∧ final.pending = [] ∧
      ascii "hello" <+: final.cat oneDay := by
  have hnow : 0 < oneDay.now := show (0 : ℤ) < 3600 by decide
  have holder : ∀ name ∈ oneDay.files.names,
      name ≤ getLogFileName oneDay.basename_ (oneDay.localtime oneDay.now) :=
    fun name hname => absurd hname (SortedSet.notMem_empty name)
  have hlocal : GoesForward oneDay.localtime oneDay.now
      (oneDay.now + (helloWritten.map PipelineInput.seconds).sum) :=
    LogDirectory.goesForward_firstDay (by decide) (by decide)
  have hfit : (ascii "hello").length < kLargeBuffer := lt_kLargeBuffer (by decide)
  obtain ⟨front, made, hfront, hpassed, hquiet⟩ := front_hello hfit
  obtain ⟨final, calls, hrun, rfl, hfinal⟩ :=
    (inv_initial le_rfl).run_follow hnow holder hlocal hfront
  have hnothing := hfinal.pending_eq_nil hquiet
  refine ⟨final, calls, hrun, ?_, hnothing, ?_⟩
  · exact (delivered_of_run hnow holder hlocal).of_eq_ok hrun
  · have hcat := hfinal.cat_eq
    unfold LogSystem.written at hcat
    rw [hnothing, List.append_nil, hpassed, List.flatMap_singleton, ← used_behind,
      FixedBuffer.used_append (show _ < LogBuffer.zeroed.avail from hfit)] at hcat
    rw [hcat]
    exact List.prefix_append _ _

end LogPipeline

end MyFileServer
