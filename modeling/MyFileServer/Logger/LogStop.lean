import MyFileServer.Logger.LogBytes

/-!
# Stopping the log

`stop` clears `running_`, which the back end tests only at the head of its
loop, and waits for the back end to finish.  From there on the back end takes
buffers at most once more, and only if it is already past the test.
-/

namespace MyFileServer

open Execution

namespace BackEnd

/-- Past the test of `running_`, in front of the critical section. -/
def WillSwap (backEnd : BackEnd) : Prop :=
  ∃ buffer1 buffer2, backEnd = .locking buffer1 buffer2 ∨ backEnd = .waiting buffer1 buffer2

theorem willSwap_toWrite {backEnd : BackEnd} (hswap : backEnd.WillSwap) :
    backEnd.toWrite = [] := by
  obtain ⟨buffer1, buffer2, rfl | rfl⟩ := hswap <;> rfl

end BackEnd

theorem AsyncLogging.running_of_append {log log' : AsyncLogging} {line : Bytes}
    {memory : LogMemory} (h : log.append line memory = .ok log') :
    log'.running_ = log.running_ := by
  unfold AsyncLogging.append at h
  obtain ⟨current, _, hrest⟩ := bind_eq_ok.mp h
  split_ifs at hrest
  · cases hrest
    rfl
  · split at hrest <;> cases hrest <;> rfl

theorem AsyncLogging.swap_eq_ok {log log' : AsyncLogging}
    {newBuffer1 newBuffer2 : Option LogBuffer} {backEnd : BackEnd}
    (h : log.swap newBuffer1 newBuffer2 = .ok (log', backEnd)) :
    log'.running_ = log.running_ ∧ ∃ buffer2 buffersToWrite,
      backEnd = .writing none buffer2 buffersToWrite 0 ∧
        usedBytes buffersToWrite = log.frontBytes := by
  unfold AsyncLogging.swap at h
  obtain ⟨current, hcurrent, hrest⟩ := bind_eq_ok.mp h
  have hfront : usedBytes (log.buffers_ ++ [current]) = log.frontBytes := by
    unfold deref at hcurrent
    split at hcurrent
    · rename_i buffer hbuffer
      cases hcurrent
      rw [frontBytes, hbuffer, Option.toList_some]
    · cases hcurrent
  cases hnext : log.nextBuffer_ with
  | some next =>
      rw [hnext] at hrest
      cases hrest
      exact ⟨rfl, _, _, rfl, hfront⟩
  | none =>
      rw [hnext] at hrest
      cases hrest
      exact ⟨rfl, _, _, rfl, hfront⟩

namespace LogSystem

/-- The bytes that the back end has taken. -/
def taken (s : LogSystem) : Bytes :=
  usedBytes (s.passed ++ s.backEnd.toWrite)

structure Stopping (s : LogSystem) : Prop where
  inv : s.Inv
  running_eq : s.log.running_ = false
  thread : s.backEnd.hasThread = true
  stopped_eq : s.stopped = true

/-- A step either leaves the taken bytes alone or takes what the front end
has.  Only a back end past the test takes anything, and none gets past the
test any more. -/
theorem Stopping.next {s s' : LogSystem} {input : LogInput} (hs : s.Stopping)
    (h : s.next input = .ok s') :
    s'.Stopping ∧
      ((s'.taken = s.taken ∧ (s'.backEnd.WillSwap ↔ s.backEnd.WillSwap)) ∨
        (s.backEnd.WillSwap ∧ ¬ s'.backEnd.WillSwap ∧ s'.taken = stored s.appended)) := by
  have hinv := (hs.inv.next input).of_eq_ok h
  have hthread := hs.thread
  cases transition_of_next h with
  | append happend =>
      have hrunning := AsyncLogging.running_of_append happend
      exact ⟨⟨hinv, hrunning.trans hs.running_eq, hthread, hs.stopped_eq⟩,
        Or.inl ⟨rfl, Iff.rfl⟩⟩
  | start hback =>
      rw [hback] at hthread
      cases hthread
  | enter hback =>
      refine ⟨⟨hinv, hs.running_eq, rfl, hs.stopped_eq⟩, Or.inl ⟨?_, ?_⟩⟩
      · rw [taken, taken, hback]
        rfl
      · simp [BackEnd.WillSwap, hback]
  | test hback =>
      rename_i buffer1 buffer2
      have hfinished : (if s.log.running_ then BackEnd.locking buffer1 buffer2 else .finished) =
          BackEnd.finished :=
        if_neg (by simp [hs.running_eq])
      refine ⟨⟨hinv, hs.running_eq, ?_, hs.stopped_eq⟩, Or.inl ⟨?_, ?_⟩⟩
      · rw [hfinished]
        rfl
      · simp only [taken, hfinished, hback]
        rfl
      · simp [BackEnd.WillSwap, hback, hs.running_eq]
  | wait hback =>
      refine ⟨⟨hinv, hs.running_eq, rfl, hs.stopped_eq⟩, Or.inl ⟨?_, ?_⟩⟩
      · rw [taken, taken, hback]
        rfl
      · simp [BackEnd.WillSwap, hback]
  | swap hinput hback hswap =>
      have hwill : s.backEnd.WillSwap := ⟨_, _, hback⟩
      obtain ⟨hrunning, buffer2, buffersToWrite, rfl, htaken⟩ := AsyncLogging.swap_eq_ok hswap
      refine ⟨⟨hinv, hrunning.trans hs.running_eq, rfl, hs.stopped_eq⟩,
        Or.inr ⟨hwill, by simp [BackEnd.WillSwap], ?_⟩⟩
      have hbytes := hs.inv.bytes_eq
      rw [BackEnd.willSwap_toWrite hwill, List.append_nil] at hbytes
      change usedBytes (s.passed ++ buffersToWrite) = _
      rw [usedBytes_append, htaken, hbytes]
  | write hback hget =>
      obtain ⟨hlt, hbuffer⟩ := List.getElem?_eq_some_iff.mp hget
      refine ⟨⟨hinv, hs.running_eq, rfl, hs.stopped_eq⟩, Or.inl ⟨?_, ?_⟩⟩
      · simp only [taken, hback, BackEnd.toWrite]
        rw [List.append_assoc, List.singleton_append, ← hbuffer, List.getElem_cons_drop]
      · simp [BackEnd.WillSwap, hback]
  | recycle hback hrecycle =>
      have hready := hs.inv.spares
      rw [hback] at hready
      obtain ⟨spare1, spare2, hatHead, _⟩ := AsyncLogging.recycle_ready hready
      obtain rfl := Except.ok.inj (hatHead.symm.trans hrecycle)
      refine ⟨⟨hinv, hs.running_eq, rfl, hs.stopped_eq⟩, Or.inl ⟨?_, ?_⟩⟩
      · simp [taken, hback, BackEnd.toWrite]
      · simp [BackEnd.WillSwap, hback]
  | stop hthread hfirst =>
      rw [hs.stopped_eq] at hfirst
      cases hfirst

/-- What is taken stays taken, and is all if the back end still takes once. -/
theorem Stopping.run_taken {s final : LogSystem} {inputs : List LogInput} {calls}
    (hs : s.Stopping) (hrun : run step s inputs = .ok (final, calls)) :
    final.Stopping ∧
      (¬ s.backEnd.WillSwap → final.taken = s.taken ∧ ¬ final.backEnd.WillSwap) ∧
      (s.backEnd.WillSwap → final.backEnd.WillSwap ∨ stored s.appended <+: final.taken) := by
  induction inputs generalizing s calls with
  | nil =>
      obtain ⟨rfl, _⟩ := run_nil_eq_ok.mp hrun
      exact ⟨hs, fun hnot => ⟨rfl, hnot⟩, fun hwill => Or.inl hwill⟩
  | cons input inputs ih =>
      obtain ⟨next, _, _, hfirst, hrest, _⟩ := run_cons_eq_ok.mp hrun
      have hstep := step_eq_ok.mp hfirst
      have happended := (transition_of_next hstep).appended_eq
      obtain ⟨hnext, hcases⟩ := hs.next hstep
      obtain ⟨hfinal, hlate, hearly⟩ := ih hnext hrest
      refine ⟨hfinal, ?_, ?_⟩
      · intro hnot
        rcases hcases with ⟨htaken, hwill⟩ | ⟨hwill, _⟩
        · obtain ⟨hsame, hstays⟩ := hlate (fun habsurd => hnot (hwill.mp habsurd))
          exact ⟨hsame.trans htaken, hstays⟩
        · exact absurd hwill hnot
      · intro hwill
        rcases hcases with ⟨_, hiff⟩ | ⟨_, hover, htaken⟩
        · rcases hearly (hiff.mpr hwill) with hstill | hprefix
          · exact Or.inl hstill
          · refine Or.inr (List.IsPrefix.trans ?_ hprefix)
            rw [happended]
            unfold stored
            rw [List.flatMap_append]
            exact List.prefix_append _ _
        · right
          rw [(hlate hover).1, htaken]

/-- Every line is among the bytes passed to `LogFile::append`. -/
def Drained (lines : List Bytes) (s : LogSystem) : Prop :=
  lines.flatten <+: usedBytes s.passed

theorem length_storedLine_le (line : Bytes) : (storedLine line).length ≤ line.length := by
  unfold storedLine
  split
  · exact le_rfl
  · exact Nat.zero_le _

/-- A line as long as a buffer is dropped, so fewer bytes are stored. -/
theorem length_stored_lt {lines : List Bytes} {line : Bytes} (hline : line ∈ lines)
    (hlong : kLargeBuffer ≤ line.length) : (stored lines).length < lines.flatten.length := by
  have hpos := kLargeBuffer_pos
  unfold stored
  rw [List.length_flatMap, List.length_flatten]
  refine List.sum_lt_sum _ _ (fun line _ => length_storedLine_le line) ⟨line, hline, ?_⟩
  unfold storedLine
  rw [if_neg (by omega), List.length_nil]
  omega

theorem stopping_of_stop {s next : LogSystem} (hs : s.Inv)
    (hstop : step s .stop = .ok (next, ())) :
    next.Stopping ∧ next.taken = s.taken ∧ next.appended = s.appended ∧
      next.backEnd = s.backEnd := by
  have hnext := step_eq_ok.mp hstop
  have hinv := (hs.next .stop).of_eq_ok hnext
  cases transition_of_next hnext with
  | swap hinput => rcases hinput with habsurd | habsurd <;> cases habsurd
  | stop hthread hfirst => exact ⟨⟨hinv, rfl, hthread, rfl⟩, rfl, rfl, rfl⟩

/-- The lines appended before `stop`, none of them as long as a buffer, have been
passed when it returns exactly if the back end was then past its test of
`running_`, or had taken them.  A longer line is lost. -/
theorem drained_iff {before after : List LogInput} {atStop start final : LogSystem}
    {calls calls'} (hbefore : run step initial before = .ok (atStop, calls))
    (hstop : step atStop .stop = .ok (start, ()))
    (hafter : run step start after = .ok (final, calls'))
    (hjoined : final.backEnd = .finished) :
    ((∀ line ∈ atStop.appended, line.length < kLargeBuffer) →
      (Drained atStop.appended final ↔
        atStop.backEnd.WillSwap ∨ atStop.log.frontBytes = [])) ∧
    (final.appended = atStop.appended →
      ∀ line ∈ atStop.appended, kLargeBuffer ≤ line.length →
        ¬ Drained atStop.appended final) := by
  have hinv := inv_of_run inv_initial hbefore
  obtain ⟨hstopping, htaken, happended, hback⟩ := stopping_of_stop hinv hstop
  obtain ⟨hstopped, hlate, hearly⟩ := hstopping.run_taken hafter
  have hbytes := hinv.bytes_eq
  have hfinal : final.taken = usedBytes final.passed := by
    simp [taken, hjoined, BackEnd.toWrite]
  have hover : ¬ final.backEnd.WillSwap := by
    simp [BackEnd.WillSwap, hjoined]
  rw [hback, happended] at hearly
  rw [hback, htaken] at hlate
  unfold Drained
  rw [← hfinal]
  refine ⟨fun hfit => ?_, fun hquiet line hline hlong hdrained => ?_⟩
  · rw [← stored_eq_flatten hfit]
    constructor
    · intro hdrained
      by_cases hwill : atStop.backEnd.WillSwap
      · exact Or.inl hwill
      · right
        rw [(hlate hwill).1] at hdrained
        have hle := hdrained.length_le
        rw [← hbytes, taken, List.length_append] at hle
        exact List.length_eq_zero_iff.mp (by omega)
    · rintro (hwill | hempty)
      · exact (hearly hwill).resolve_left hover
      · by_cases hwill : atStop.backEnd.WillSwap
        · exact (hearly hwill).resolve_left hover
        · rw [(hlate hwill).1, ← hbytes, hempty, List.append_nil]
          exact List.prefix_refl _
  · have hall := hstopped.inv.bytes_eq
    have hle := hdrained.length_le
    have hlost := length_stored_lt hline hlong
    rw [hquiet] at hall
    rw [← hall, List.length_append, ← taken] at hlost
    omega

theorem drained_iff_waiting :
    ∃ atStop start final calls calls',
      run step initial [.append (ascii "hello") LogMemory.zero, .start, .enter, .test, .lock] =
          .ok (atStop, calls) ∧
        step atStop .stop = .ok (start, ()) ∧
        run step start [.wake, .write, .recycle, .test] = .ok (final, calls') ∧
        atStop.appended = [ascii "hello"] ∧ Drained atStop.appended final := by
  have hfirst :=
    @step_append_initial (ascii "hello") (lt_kLargeBuffer (by decide)) LogMemory.zero
  have hrun : ∃ atStop start final calls calls',
      run step initial [.append (ascii "hello") LogMemory.zero, .start, .enter, .test, .lock] =
          .ok (atStop, calls) ∧
        step atStop .stop = .ok (start, ()) ∧
        run step start [.wake, .write, .recycle, .test] = .ok (final, calls') ∧
        atStop.appended = [ascii "hello"] ∧ atStop.backEnd.WillSwap ∧
        final.backEnd = .finished :=
    ⟨_, _, _, _, _, run_cons_eq_ok.mpr ⟨_, (), _, hfirst, rfl, rfl⟩, rfl, rfl, rfl,
      ⟨_, _, .inr rfl⟩, rfl⟩
  obtain ⟨atStop, start, final, calls, calls', hbefore, hstop, hafter, happended, hwill,
    hjoined⟩ := hrun
  have hfit : ∀ line ∈ atStop.appended, line.length < kLargeBuffer := by
    rw [happended]
    intro line hline
    rw [List.mem_singleton.mp hline]
    exact lt_kLargeBuffer (by decide)
  exact ⟨atStop, start, final, calls, calls', hbefore, hstop, hafter, happended,
    ((drained_iff hbefore hstop hafter hjoined).1 hfit).mpr (Or.inl hwill)⟩

/-- `stop` comes before the first test of `running_`, and the loop is never
entered. -/
theorem not_drained_early_stop :
    ∃ atStop start final calls calls',
      run step initial [.append (ascii "hello") LogMemory.zero, .start] = .ok (atStop, calls) ∧
        step atStop .stop = .ok (start, ()) ∧
        run step start [.enter, .test] = .ok (final, calls') ∧
        final.backEnd = .finished ∧ final.passed = [] ∧ ¬ Drained atStop.appended final := by
  have hfirst :=
    @step_append_initial (ascii "hello") (lt_kLargeBuffer (by decide)) LogMemory.zero
  refine ⟨_, _, _, _, _, run_cons_eq_ok.mpr ⟨_, (), _, hfirst, rfl, rfl⟩, rfl, rfl, rfl, rfl, ?_⟩
  intro hdrained
  have hle := hdrained.length_le
  revert hle
  decide

end LogSystem

end MyFileServer
