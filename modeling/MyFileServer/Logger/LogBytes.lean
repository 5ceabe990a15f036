import MyFileServer.Logger.AsyncLogging

/-!
# The bytes of the log

Every line is in front of the cursor of exactly one buffer that was passed to
`LogFile::append` or will be, in the order of the lock, and every buffer that
is kept for later use is empty.  What is passed is the whole array of a
buffer, so each buffer also brings the bytes behind its cursor.
-/

namespace MyFileServer

open Execution

def usedBytes (buffers : List LogBuffer) : Bytes :=
  buffers.flatMap FixedBuffer.used

@[simp] theorem usedBytes_append (first second : List LogBuffer) :
    usedBytes (first ++ second) = usedBytes first ++ usedBytes second :=
  List.flatMap_append

@[simp] theorem usedBytes_singleton (buffer : LogBuffer) :
    usedBytes [buffer] = buffer.used := by
  simp [usedBytes]

/-- A line that no buffer can hold is dropped. -/
def storedLine (line : Bytes) : Bytes :=
  if line.length < kLargeBuffer then line else []

def stored (lines : List Bytes) : Bytes :=
  lines.flatMap storedLine

@[simp] theorem stored_append_singleton (lines : List Bytes) (line : Bytes) :
    stored (lines ++ [line]) = stored lines ++ storedLine line := by
  simp [stored]

theorem stored_eq_flatten {lines : List Bytes}
    (hfit : ∀ line ∈ lines, line.length < kLargeBuffer) : stored lines = lines.flatten := by
  induction lines with
  | nil => rfl
  | cons line lines ih =>
      have hsplit := List.forall_mem_cons.mp hfit
      have htail := ih hsplit.2
      unfold stored at htail ⊢
      rw [List.flatMap_cons, List.flatten_cons, htail, storedLine, if_pos hsplit.1]

namespace FixedBuffer

def Empty (buffer : LogBuffer) : Prop :=
  buffer.cur_ = 0

theorem empty_new (memory : LogMemory) : Empty (LogBuffer.new memory) := rfl

theorem empty_reset (buffer : LogBuffer) : Empty buffer.reset := rfl

theorem Empty.used_eq_nil {buffer : LogBuffer} (hempty : Empty buffer) :
    buffer.used = [] := by
  rw [← List.length_eq_zero_iff, length_used]
  exact hempty

theorem Empty.used_append {buffer : LogBuffer} (hempty : Empty buffer) (line : Bytes) :
    (buffer.append line).used = storedLine line := by
  have havail : buffer.avail = kLargeBuffer := by
    unfold avail
    rw [show buffer.cur_ = 0 from hempty, Nat.sub_zero]
  unfold storedLine
  split_ifs with hfit
  · rw [FixedBuffer.used_append (by rwa [havail]), hempty.used_eq_nil, List.nil_append]
  · rw [append_eq_self (by rwa [havail]), hempty.used_eq_nil]

end FixedBuffer

open FixedBuffer (Empty)

namespace BackEnd

/-- The buffers that are still to be passed. -/
def toWrite : BackEnd → List LogBuffer
  | .writing _ _ buffersToWrite next => buffersToWrite.drop next
  | _ => []

/-- The two spare buffers are there and empty while the back end is not
writing, and enough buffers come back after it has written. -/
def SparesReady : BackEnd → Prop
  | .noThread | .created | .finished => True
  | .atHead buffer1 buffer2 | .locking buffer1 buffer2 | .waiting buffer1 buffer2 =>
      (∃ spare, buffer1 = some spare ∧ Empty spare) ∧ ∃ spare, buffer2 = some spare ∧ Empty spare
  | .writing buffer1 buffer2 buffersToWrite next =>
      buffer1 = none ∧ next ≤ buffersToWrite.length ∧ buffersToWrite ≠ [] ∧
        ((∃ spare, buffer2 = some spare ∧ Empty spare) ∨
          buffer2 = none ∧ 2 ≤ buffersToWrite.length)

end BackEnd

namespace AsyncLogging

/-- The lines in the buffers of the front end. -/
def frontBytes (log : AsyncLogging) : Bytes :=
  usedBytes (log.buffers_ ++ log.currentBuffer_.toList)

/-- The pointers of the front end, with what they have to point to. -/
structure FrontReady (log : AsyncLogging) : Prop where
  current_ne : log.currentBuffer_ ≠ none
  next_empty : ∀ next, log.nextBuffer_ = some next → Empty next
  buffers_ne : log.nextBuffer_ = none → log.buffers_ ≠ []

theorem FrontReady.append {log : AsyncLogging} (hlog : log.FrontReady) (line : Bytes)
    (memory : LogMemory) :
    ∃ log', log.append line memory = .ok log' ∧ log'.FrontReady ∧
      log'.running_ = log.running_ ∧
      log'.frontBytes = log.frontBytes ++ storedLine line := by
  obtain ⟨current, hcurrent⟩ := Option.ne_none_iff_exists'.mp hlog.current_ne
  unfold AsyncLogging.append
  rw [hcurrent]
  by_cases hroom : line.length < current.avail
  · refine ⟨{ log with currentBuffer_ := some (current.append line) }, ?_, ?_, rfl, ?_⟩
    · simp [deref, hroom, bind, Except.bind, pure, Except.pure]
    · exact ⟨by simp, hlog.next_empty, hlog.buffers_ne⟩
    · have hfit : line.length < kLargeBuffer := by
        unfold FixedBuffer.avail at hroom
        omega
      simp only [frontBytes, hcurrent, Option.toList_some, usedBytes_append,
        usedBytes_singleton, FixedBuffer.used_append hroom, storedLine, if_pos hfit]
      rw [List.append_assoc]
  · cases hnext : log.nextBuffer_ with
    | some next =>
        have hempty := hlog.next_empty next hnext
        refine ⟨{ log with
          buffers_ := log.buffers_ ++ [current]
          currentBuffer_ := some (next.append line)
          nextBuffer_ := none }, ?_, ?_, rfl, ?_⟩
        · simp [deref, hroom, bind, Except.bind, pure, Except.pure]
        · exact ⟨by simp, by simp, by simp⟩
        · simp only [frontBytes, hcurrent, Option.toList_some, usedBytes_append,
            usedBytes_singleton, hempty.used_append]
    | none =>
        have hempty := FixedBuffer.empty_new memory
        refine ⟨{ log with
          buffers_ := log.buffers_ ++ [current]
          currentBuffer_ := some ((LogBuffer.new memory).append line) }, ?_, ?_, rfl, ?_⟩
        · simp [deref, hroom, hnext, bind, Except.bind, pure, Except.pure]
        · exact ⟨by simp, by simp [hnext], by simp⟩
        · simp only [frontBytes, hcurrent, Option.toList_some, usedBytes_append,
            usedBytes_singleton, hempty.used_append]

theorem FrontReady.swap {log : AsyncLogging} (hlog : log.FrontReady)
    {spare1 spare2 : LogBuffer} (hempty1 : Empty spare1) (hempty2 : Empty spare2) :
    ∃ log' newBuffer2 buffersToWrite,
      log.swap (some spare1) (some spare2) =
        .ok (log', .writing none newBuffer2 buffersToWrite 0) ∧
      log'.FrontReady ∧ log'.running_ = log.running_ ∧ log'.frontBytes = [] ∧
      usedBytes buffersToWrite = log.frontBytes ∧
      (BackEnd.writing none newBuffer2 buffersToWrite 0).SparesReady := by
  obtain ⟨current, hcurrent⟩ := Option.ne_none_iff_exists'.mp hlog.current_ne
  have hfront : log.frontBytes = usedBytes (log.buffers_ ++ [current]) := by
    rw [frontBytes, hcurrent, Option.toList_some]
  have hspare : usedBytes [spare1] = [] := by
    rw [usedBytes_singleton, hempty1.used_eq_nil]
  unfold AsyncLogging.swap
  rw [hcurrent]
  cases hnext : log.nextBuffer_ with
  | some next =>
      refine ⟨_, some spare2, _, rfl, ⟨by simp, ?_, by simp⟩, rfl, hspare,
        hfront.symm, ?_⟩
      · intro next' hnext'
        cases hnext'
        exact hlog.next_empty next hnext
      · exact ⟨rfl, Nat.zero_le _, by simp, Or.inl ⟨spare2, rfl, hempty2⟩⟩
  | none =>
      have hbuffers := List.length_pos_iff.mpr (hlog.buffers_ne hnext)
      refine ⟨_, none, _, rfl, ⟨by simp, ?_, by simp⟩, rfl, hspare, hfront.symm, ?_⟩
      · intro next' hnext'
        cases hnext'
        exact hempty2
      · refine ⟨rfl, Nat.zero_le _, by simp, Or.inr ⟨rfl, ?_⟩⟩
        rw [List.length_append, List.length_singleton]
        omega

theorem takeBack_none {buffers : List LogBuffer} (hne : buffers ≠ []) :
    takeBack none buffers = .ok ((buffers.getLast hne).reset, buffers.dropLast) := by
  unfold takeBack
  rw [List.getLast?_eq_getLast_of_ne_nil hne]
  rfl

/-- At least one buffer comes back, and two if both spares are missing. -/
theorem recycle_ready {newBuffer1 newBuffer2 : Option LogBuffer}
    {buffersToWrite : List LogBuffer} {next : ℕ}
    (hready : (BackEnd.writing newBuffer1 newBuffer2 buffersToWrite next).SparesReady) :
    ∃ spare1 spare2, recycle newBuffer1 newBuffer2 buffersToWrite =
      .ok (.atHead (some spare1) (some spare2)) ∧ Empty spare1 ∧ Empty spare2 := by
  obtain ⟨rfl, _, hne, hsecond⟩ := hready
  have hpos := List.length_pos_iff.mpr hne
  unfold recycle
  generalize hkept : (if 2 < buffersToWrite.length then buffersToWrite.take 2
    else buffersToWrite) = kept
  have hlength : kept.length = min 2 buffersToWrite.length := by
    rw [← hkept]
    split_ifs
    · rw [List.length_take]
    · omega
  have hkept_ne : kept ≠ [] := List.length_pos_iff.mp (by omega)
  have hfirst := takeBack_none hkept_ne
  have hempty1 := FixedBuffer.empty_reset (kept.getLast hkept_ne)
  rcases hsecond with ⟨spare, rfl, hempty2⟩ | ⟨rfl, htwo⟩
  · exact ⟨_, spare, bind_eq_ok.mpr ⟨_, hfirst, rfl⟩, hempty1, hempty2⟩
  · have hdrop_ne : kept.dropLast ≠ [] := by
      apply List.length_pos_iff.mp
      rw [List.length_dropLast]
      omega
    have hempty2 := FixedBuffer.empty_reset (kept.dropLast.getLast hdrop_ne)
    exact ⟨_, _, bind_eq_ok.mpr ⟨_, hfirst,
      bind_eq_ok.mpr ⟨_, takeBack_none hdrop_ne, rfl⟩⟩, hempty1, hempty2⟩

end AsyncLogging

namespace LogSystem

structure Inv (s : LogSystem) : Prop where
  front : s.log.FrontReady
  spares : s.backEnd.SparesReady
  bytes_eq : usedBytes (s.passed ++ s.backEnd.toWrite) ++ s.log.frontBytes = stored s.appended

theorem inv_initial : Inv initial where
  front :=
    { current_ne := by simp [initial]
      next_empty := by
        intro next hnext
        cases hnext
        exact FixedBuffer.empty_new _
      buffers_ne := by simp [initial] }
  spares := trivial
  bytes_eq := by
    have hused : LogBuffer.zeroed.used = [] := (FixedBuffer.empty_new _).used_eq_nil
    simp [initial, AsyncLogging.frontBytes, BackEnd.toWrite, hused, stored, usedBytes]

/-- Only a step that no thread can take fails. -/
def Disabled (failure : LogFailure) : Prop :=
  failure = .notEnabled

theorem Inv.swap {s : LogSystem} (hs : s.Inv) {spare1 spare2 : LogBuffer}
    (hwrite : s.backEnd.toWrite = []) (hempty1 : Empty spare1) (hempty2 : Empty spare2) :
    ∃ log backEnd, s.log.swap (some spare1) (some spare2) = .ok (log, backEnd) ∧
      ({ s with log, backEnd } : LogSystem).Inv := by
  obtain ⟨log, newBuffer2, buffersToWrite, hswap, hfront, _, hnone, htaken, hspares⟩ :=
    hs.front.swap hempty1 hempty2
  refine ⟨log, _, hswap, hfront, hspares, ?_⟩
  have hbytes := hs.bytes_eq
  rw [hwrite, List.append_nil] at hbytes
  change usedBytes (s.passed ++ buffersToWrite) ++ log.frontBytes = stored s.appended
  rw [hnone, List.append_nil, usedBytes_append, htaken, hbytes]

theorem Inv.next {s : LogSystem} (hs : s.Inv) (input : LogInput) :
    Ends Disabled Inv (s.next input) := by
  have hspares := hs.spares
  have hbytes := hs.bytes_eq
  unfold LogSystem.next
  split
  · -- append
    rename_i line memory
    obtain ⟨log, hlog, hfront, _, hline⟩ := hs.front.append line memory
    rw [hlog]
    refine ⟨hfront, hspares, ?_⟩
    change usedBytes (s.passed ++ s.backEnd.toWrite) ++ log.frontBytes =
      stored (s.appended ++ [line])
    rw [hline, ← List.append_assoc, hbytes, stored_append_singleton]
  · -- start
    rename_i hback
    rw [hback] at hbytes
    exact ⟨⟨hs.front.current_ne, hs.front.next_empty, hs.front.buffers_ne⟩, trivial, hbytes⟩
  · -- enter
    rename_i hback
    rw [hback] at hbytes
    refine ⟨hs.front, ?_, hbytes⟩
    exact ⟨⟨_, rfl, FixedBuffer.empty_new _⟩, _, rfl, FixedBuffer.empty_new _⟩
  · -- test
    rename_i buffer1 buffer2 hback
    rw [hback] at hspares hbytes
    cases hrunning : s.log.running_ with
    | true => exact ⟨hs.front, hspares, hbytes⟩
    | false => exact ⟨hs.front, trivial, hbytes⟩
  · -- lock
    rename_i buffer1 buffer2 hback
    rw [hback] at hspares hbytes
    split_ifs
    · exact ⟨hs.front, hspares, hbytes⟩
    · obtain ⟨⟨spare1, rfl, hempty1⟩, spare2, rfl, hempty2⟩ := hspares
      obtain ⟨log, backEnd, hswap, hnext⟩ := hs.swap (by rw [hback]; rfl) hempty1 hempty2
      rw [hswap]
      exact hnext
  · -- wake
    rename_i buffer1 buffer2 hback
    rw [hback] at hspares
    obtain ⟨⟨spare1, rfl, hempty1⟩, spare2, rfl, hempty2⟩ := hspares
    obtain ⟨log, backEnd, hswap, hnext⟩ := hs.swap (by rw [hback]; rfl) hempty1 hempty2
    rw [hswap]
    exact hnext
  · -- write
    rename_i buffer1 buffer2 buffersToWrite next hback
    rw [hback] at hspares hbytes
    cases hget : buffersToWrite[next]? with
    | none => exact rfl
    | some buffer =>
        obtain ⟨hlt, hbuffer⟩ := List.getElem?_eq_some_iff.mp hget
        refine ⟨hs.front, ⟨hspares.1, hlt, hspares.2.2⟩, ?_⟩
        change usedBytes (s.passed ++ [buffer] ++ buffersToWrite.drop (next + 1)) ++ _ = _
        rw [List.append_assoc, List.singleton_append, ← hbuffer, List.getElem_cons_drop]
        exact hbytes
  · -- recycle
    rename_i buffer1 buffer2 buffersToWrite next hback
    rw [hback] at hspares hbytes
    split_ifs with hdone
    · obtain ⟨spare1, spare2, hrecycle, hempty1, hempty2⟩ := AsyncLogging.recycle_ready hspares
      rw [hrecycle]
      refine ⟨hs.front, ⟨⟨spare1, rfl, hempty1⟩, spare2, rfl, hempty2⟩, ?_⟩
      have hdrop : buffersToWrite.drop next = [] := by
        rw [hdone, List.drop_length]
      change usedBytes (s.passed ++ buffersToWrite.drop next) ++ _ = _ at hbytes
      rwa [hdrop] at hbytes
    · exact rfl
  · -- stop
    split_ifs
    · exact ⟨⟨hs.front.current_ne, hs.front.next_empty, hs.front.buffers_ne⟩, hspares, hbytes⟩
    · exact rfl
  · exact rfl

theorem inv_of_run {inputs : List LogInput} {start final : LogSystem} {calls}
    (hstart : start.Inv) (hrun : run step start inputs = .ok (final, calls)) : final.Inv := by
  have hstep : ∀ s input next output, Inv s → True →
      step s input = .ok (next, output) → Inv next :=
    fun s input next output hs _ hnext => (hs.next input).of_eq_ok (step_eq_ok.mp hnext)
  exact (run_invariant hstep hrun hstart (fun _ _ => trivial)).1

/-- The line that a step appends. -/
def lines : LogInput → List Bytes
  | .append line _ => [line]
  | _ => []

theorem Transition.appended_eq {s s' : LogSystem} {input : LogInput}
    (h : Transition s input s') : s'.appended = s.appended ++ lines input := by
  cases h with
  | swap hinput => rcases hinput with rfl | rfl <;> exact (List.append_nil _).symm
  | append => rfl
  | start | enter | test | wait | write | recycle | stop => exact (List.append_nil _).symm

theorem appended_of_run {inputs : List LogInput} {start final : LogSystem} {calls}
    (hrun : run step start inputs = .ok (final, calls)) :
    final.appended = start.appended ++ inputs.flatMap lines := by
  induction inputs generalizing start calls with
  | nil =>
      obtain ⟨rfl, _⟩ := run_nil_eq_ok.mp hrun
      simp
  | cons input inputs ih =>
      obtain ⟨next, _, _, hfirst, hrest, _⟩ := run_cons_eq_ok.mp hrun
      have hone := (transition_of_next (step_eq_ok.mp hfirst)).appended_eq
      rw [ih hrest, hone, List.flatMap_cons, List.append_assoc]

/-! ## The spare buffers -/

/-- At the head of the loop body both spare buffers are there and empty; the
front end has a current buffer, and a full one if its spare is used up. -/
structure Stocked (s : LogSystem) : Prop where
  spares : ∀ buffer1 buffer2,
    s.backEnd = .atHead buffer1 buffer2 ∨ s.backEnd = .locking buffer1 buffer2 →
      (∃ spare, buffer1 = some spare ∧ Empty spare) ∧ ∃ spare, buffer2 = some spare ∧ Empty spare
  current_ne : s.log.currentBuffer_ ≠ none
  buffers_ne : s.log.nextBuffer_ = none → s.log.buffers_ ≠ []

theorem Inv.stocked {s : LogSystem} (hs : s.Inv) : s.Stocked := by
  refine ⟨?_, hs.front.current_ne, hs.front.buffers_ne⟩
  intro buffer1 buffer2 hback
  have hspares := hs.spares
  rcases hback with hback | hback
  · rw [hback] at hspares
    exact hspares
  · rw [hback] at hspares
    exact hspares

theorem Inv.step {s : LogSystem} (hs : s.Inv) (input : LogInput) :
    Ends Disabled (fun r => r.1.Inv) (step s input) :=
  (hs.next input).bind fun _ hnext => hnext

/-- No run uses a null pointer or takes a buffer from an empty vector: a run
that fails does so at an input that no thread can take. -/
theorem stocked_of_run (inputs : List LogInput) :
    Ends Disabled (fun r => r.1.Stocked ∧ ∀ call ∈ r.2, call.pre.Stocked)
      (run step initial inputs) := by
  have hstep : ∀ (past : List (Call LogSystem LogInput Unit)) (s : LogSystem) (input : LogInput),
      (s.Inv ∧ ∀ call ∈ past, call.pre.Stocked) →
      Ends Disabled (fun r => r.1.Inv ∧ ∀ call ∈ past ++ [⟨s, input, r.2⟩], call.pre.Stocked)
        (step s input) := by
    intro past s input hs
    refine (hs.1.step input).mono ?_
    intro r hnext
    refine ⟨hnext, ?_⟩
    intro call hcall
    rcases List.mem_append.mp hcall with hpast | hlast
    · exact hs.2 call hpast
    · rw [List.mem_singleton.mp hlast]
      exact hs.1.stocked
  have hinitial : initial.Inv ∧
      ∀ call ∈ ([] : List (Call LogSystem LogInput Unit)), call.pre.Stocked :=
    ⟨inv_initial, by simp⟩
  have hrun := Ends.run hstep hinitial inputs
  exact hrun.mono fun r hr => ⟨hr.1.stocked, hr.2⟩

/-! ## What reaches the log file -/

/-- The bytes passed to `LogFile::append`: `length()` bytes from `data()`. -/
def written (s : LogSystem) : Bytes :=
  s.passed.flatMap fun buffer => buffer.data_.take buffer.length

/-- Written bytes and those not yet written are the appended lines. -/
def Faithful (s : LogSystem) : Prop :=
  s.written ++ usedBytes s.backEnd.toWrite ++ s.log.frontBytes = s.appended.flatten

theorem length_wholeBytes_le (buffers : List LogBuffer) :
    (usedBytes buffers).length + buffers.length ≤
      (buffers.flatMap fun buffer => buffer.data_.take buffer.length).length := by
  induction buffers with
  | nil => simp [usedBytes]
  | cons buffer buffers ih =>
      have hcur := buffer.cur_lt
      have hdata := buffer.length_data
      unfold usedBytes at ih ⊢
      simp only [List.flatMap_cons, List.length_append, List.length_cons,
        FixedBuffer.length_used, List.length_take, FixedBuffer.length] at ih ⊢
      omega

theorem Inv.faithful_iff {s : LogSystem} (hs : s.Inv)
    (hfit : ∀ line ∈ s.appended, line.length < kLargeBuffer) :
    s.Faithful ↔ s.passed = [] := by
  have hbytes := hs.bytes_eq
  rw [stored_eq_flatten hfit, usedBytes_append] at hbytes
  unfold Faithful
  rw [← hbytes, List.append_left_inj, List.append_left_inj]
  constructor
  · intro hsame
    have hlength := length_wholeBytes_le s.passed
    unfold written at hsame
    rw [hsame] at hlength
    exact List.length_eq_zero_iff.mp (by omega)
  · intro hnone
    simp [written, usedBytes, hnone]

/-- The log file is right as long as nothing has been written to it. -/
theorem faithful_iff_nothing_passed {inputs : List LogInput} {final : LogSystem} {calls}
    (hlines : ∀ line memory, .append line memory ∈ inputs →
      0 < line.length ∧ line.length < kLargeBuffer)
    (hrun : run step initial inputs = .ok (final, calls)) :
    final.Faithful ↔ final.passed = [] := by
  apply (inv_of_run inv_initial hrun).faithful_iff
  intro line hline
  rw [appended_of_run hrun] at hline
  obtain ⟨input, hinput, hmem⟩ := List.mem_flatMap.mp hline
  cases input with
  | append line' memory =>
      obtain rfl := List.mem_singleton.mp hmem
      exact (hlines line memory hinput).2
  | start | enter | test | lock | wake | write | recycle | stop => cases hmem

theorem step_append_initial {line : Bytes} (hfit : line.length < kLargeBuffer)
    (memory : LogMemory) :
    step initial (.append line memory) = .ok ({ initial with
      log := { initial.log with currentBuffer_ := some (LogBuffer.zeroed.append line) }
      appended := [line] }, ()) := by
  have hroom : line.length < LogBuffer.zeroed.avail := hfit
  rw [step_eq_ok]
  simp only [next, AsyncLogging.append, initial, deref, bind, Except.bind, if_pos hroom]
  rfl

theorem run_append_started {line : Bytes} (hfit : line.length < kLargeBuffer)
    (memory : LogMemory) :
    ∃ final calls,
      run step initial [.append line memory, .start, .enter, .test] = .ok (final, calls) ∧
        final.passed = [] ∧ final.appended = [line] := by
  exact ⟨_, _, run_cons_eq_ok.mpr ⟨_, (), _, step_append_initial hfit memory, rfl, rfl⟩,
    rfl, rfl⟩

theorem faithful_iff_nothing_passed_started :
    (∀ line memory,
        LogInput.append line memory ∈
            [.append (ascii "hello") LogMemory.zero, .start, .enter, .test] →
          0 < line.length ∧ line.length < kLargeBuffer) ∧
      ∃ final calls,
        run step initial [.append (ascii "hello") LogMemory.zero, .start, .enter, .test] =
          .ok (final, calls) ∧
        final.appended = [ascii "hello"] ∧ final.Faithful := by
  have hlines : ∀ line memory,
      LogInput.append line memory ∈
          [.append (ascii "hello") LogMemory.zero, .start, .enter, .test] →
        0 < line.length ∧ line.length < kLargeBuffer := by
    intro line memory hmem
    have hline : line = ascii "hello" ∧ memory = LogMemory.zero := by
      simpa using hmem
    rw [hline.1]
    exact ⟨by decide, lt_kLargeBuffer (by decide)⟩
  obtain ⟨final, calls, hrun, hpassed, happended⟩ :=
    @run_append_started (ascii "hello") (lt_kLargeBuffer (by decide)) LogMemory.zero
  exact ⟨hlines, final, calls, hrun, happended,
    (faithful_iff_nothing_passed hlines hrun).mpr hpassed⟩

/-- Without any line, the first wait that times out is followed by a write of
the whole buffer. -/
theorem not_faithful_idle :
    ∃ final calls,
      run step initial [.start, .enter, .test, .lock, .wake, .write] = .ok (final, calls) ∧
        final.appended = [] ∧ final.written = List.replicate kLargeBuffer 0 ∧
        ¬ final.Faithful := by
  have hrun : ∃ final calls,
      run step initial [.start, .enter, .test, .lock, .wake, .write] = .ok (final, calls) ∧
        final.appended = [] ∧ final.passed = [LogBuffer.zeroed] :=
    ⟨_, _, rfl, rfl, rfl⟩
  obtain ⟨final, calls, hrun, happended, hpassed⟩ := hrun
  refine ⟨final, calls, hrun, happended, ?_, ?_⟩
  · simp [written, hpassed, FixedBuffer.length, LogBuffer.zeroed, LogBuffer.new,
      FixedBuffer.allocate, LogMemory.zero]
  · rw [(inv_of_run inv_initial hrun).faithful_iff (by simp [happended]), hpassed]
    simp

end LogSystem

end MyFileServer
