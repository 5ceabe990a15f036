import MyFileServer.Timer.TimerOperations

/-!
# Which timers run, and how often

The events of a run are the timers that are added and the timers that run.
A timer that repeats keeps its entry; a one-shot timer has one until it runs,
and is deleted after that.
-/

namespace MyFileServer

open Execution

namespace TimerQueue

variable {clock : ℕ → Timestamp}

/-- The addresses of the timers that run, in order. -/
def ranIn (output : List TimerEvent) : List ℕ :=
  output.filterMap fun
    | .ran a => some a
    | .added _ => none

def HasOneEntry (q : TimerQueue) (a : ℕ) : Prop :=
  ∃! e, e ∈ q.timers_ ∧ e.second = a

/-- Where a timer that was added in the events `past` is. -/
def Accounts (past : List TimerEvent) (q : TimerQueue) (new : NewTimer) : Prop :=
  if new.timer.repeat_ then q.HasOneEntry new.address
  else
    (ranIn past).count new.address = 0 ∧ q.HasOneEntry new.address ∨
      (ranIn past).count new.address = 1 ∧ q.cell new.address = .freed ∧
        ∀ e ∈ q.timers_, e.second ≠ new.address

/-- The entries that are not later than the clock when the call is made. -/
def expiredAt (clock : ℕ → Timestamp) (call : TimerCall) : List Entry :=
  call.pre.timers_.elems.filter fun e => e.first ≤ clock call.pre.readings

/-- The timers that a call adds: the one it is given, or those of the callbacks
that it runs. -/
def addedIn (clock : ℕ → Timestamp) (call : TimerCall) : List NewTimer :=
  match call.input with
  | .addTimer new => [new]
  | .handleRead _ callbacks => (expiredAt clock call).flatMap fun e => callbacks e.second

/-- A call of `handleRead` runs the timers that are not later than its clock,
in the order of the set. -/
def RunsExpired (clock : ℕ → Timestamp) (call : TimerCall) : Prop :=
  match call.input with
  | .addTimer _ => ranIn call.output = []
  | .handleRead _ _ =>
      ranIn call.output = (expiredAt clock call).map Entry.second ∧
        ((expiredAt clock call).map Entry.second).Nodup ∧
        ((expiredAt clock call).map Entry.first).Pairwise (· ≤ ·)

def ReportsAdded (clock : ℕ → Timestamp) (call : TimerCall) : Prop :=
  ∀ new ∈ addedIn clock call, .added new ∈ call.output

/-! ## The events of one call -/

@[simp] theorem ranIn_append (output output' : List TimerEvent) :
    ranIn (output ++ output') = ranIn output ++ ranIn output' :=
  List.filterMap_append

theorem ranIn_events (callbacks : ℕ → List NewTimer) (expired : List Entry) :
    ranIn (events callbacks expired) = expired.map Entry.second := by
  have hadded : ∀ adds : List NewTimer, ranIn (adds.map .added) = [] := by
    intro adds
    simp [ranIn, List.filterMap_map]
  induction expired with
  | nil => rfl
  | cons it expired ih =>
      unfold events at ih ⊢
      rw [List.flatMap_cons, ranIn_append, ih, List.map_cons]
      change (it.second :: ranIn ((callbacks it.second).map .added)) ++ _ = _
      rw [hadded]
      rfl

theorem added_mem_events {callbacks : ℕ → List NewTimer} {expired : List Entry}
    {new : NewTimer} :
    .added new ∈ events callbacks expired ↔
      new ∈ expired.flatMap fun it => callbacks it.second := by
  simp [events]

theorem due_eq_filter {q : TimerQueue} (hq : QueueInv [] q) :
    q.due clock = q.timers_.elems.filter fun e => e.first ≤ clock q.readings := by
  unfold due
  rw [SortedSet.below_eq_filter]
  apply List.filter_congr
  intro e he
  rw [decide_eq_decide]
  exact hq.entry_lt_iff he _

theorem runsExpired_of_handled {q q' : TimerQueue} {fired : Bool}
    {callbacks : ℕ → List NewTimer} {output : List TimerEvent}
    (hq : QueueInv [] q) (hhandled : Handled clock q fired callbacks q' output) :
    RunsExpired clock ⟨q, .handleRead fired callbacks, output⟩ := by
  have hnodup : ((q.due clock).map Entry.second).Nodup :=
    hq.nodup_expired (clock q.readings)
  have hsorted : ((q.due clock).map Entry.first).Pairwise (· ≤ ·) := by
    refine List.pairwise_map.mpr ((q.timers_.sorted_below _).imp ?_)
    exact fun hlt => Entry.first_le hlt.le
  unfold RunsExpired expiredAt
  simp only
  rw [← due_eq_filter hq, hhandled.output_eq, ranIn_events]
  exact ⟨rfl, hnodup, hsorted⟩

theorem reportsAdded_of_handled {q q' : TimerQueue} {fired : Bool}
    {callbacks : ℕ → List NewTimer} {output : List TimerEvent}
    (hq : QueueInv [] q) (hhandled : Handled clock q fired callbacks q' output) :
    ReportsAdded clock ⟨q, .handleRead fired callbacks, output⟩ := by
  intro new hnew
  unfold addedIn expiredAt at hnew
  simp only at hnew ⊢
  rw [← due_eq_filter hq] at hnew
  rw [hhandled.output_eq]
  exact added_mem_events.mpr hnew

theorem reportsAdded_addTimer (q : TimerQueue) (new : NewTimer) :
    ReportsAdded clock ⟨q, .addTimer new, [.added new]⟩ := by
  intro new' hnew
  rw [List.mem_singleton.mp hnew]
  exact List.mem_singleton_self _

/-! ## The account of the timers -/

/-- The object of a timer that was added, and how often the timer has run. -/
def Tracked (past : List TimerEvent) (q : TimerQueue) (new : NewTimer) : Prop :=
  if new.timer.repeat_ then ∃ t, q.cell new.address = .live t ∧ t.repeat_ = true
  else
    (ranIn past).count new.address = 0 ∧ q.cell new.address = .live new.timer ∨
      (ranIn past).count new.address = 1 ∧ q.cell new.address = .freed

structure Ledger (past : List TimerEvent) (q : TimerQueue) : Prop where
  inv : QueueInv [] q
  tracked : ∀ new, .added new ∈ past → Tracked past q new
  fresh : ∀ a, q.cell a = .fresh → a ∉ ranIn past

theorem Tracked.not_fresh {past : List TimerEvent} {q : TimerQueue} {new : NewTimer}
    (hnew : Tracked past q new) : q.cell new.address ≠ .fresh := by
  unfold Tracked at hnew
  split at hnew
  · rcases hnew with ⟨t, hlive, _⟩
    simp [hlive]
  · rcases hnew with ⟨_, hlive⟩ | ⟨_, hfreed⟩
    · simp [hlive]
    · simp [hfreed]

theorem Tracked.accounts {past : List TimerEvent} {q : TimerQueue} {new : NewTimer}
    (hq : QueueInv [] q) (hnew : Tracked past q new) : q.Accounts past new := by
  unfold Tracked at hnew
  unfold Accounts
  split at hnew
  next hrepeat =>
    rw [if_pos hrepeat]
    rcases hnew with ⟨t, hlive, _⟩
    exact hq.exists_unique hlive
  next hrepeat =>
    rw [if_neg hrepeat]
    rcases hnew with ⟨hcount, hlive⟩ | ⟨hcount, hfreed⟩
    · exact .inl ⟨hcount, hq.exists_unique hlive⟩
    · refine .inr ⟨hcount, hfreed, ?_⟩
      intro e he hsecond
      rcases hq.key e he with ⟨t, hlive, _⟩
      rw [hsecond, hfreed] at hlive
      cases hlive

theorem Tracked.of_cell {past more : List TimerEvent} {q q' : TimerQueue}
    {new : NewTimer} (hnew : Tracked past q new)
    (hcell : q'.cell new.address = q.cell new.address)
    (hran : new.address ∉ ranIn more) : Tracked (past ++ more) q' new := by
  unfold Tracked at *
  rw [hcell, ranIn_append, List.count_append, List.count_eq_zero_of_not_mem hran]
  exact hnew

/-- A timer that has just been added. -/
theorem tracked_of_live {past : List TimerEvent} {q : TimerQueue} {new : NewTimer}
    (hlive : q.cell new.address = .live new.timer)
    (hran : new.address ∉ ranIn past) : Tracked past q new := by
  unfold Tracked
  split
  next hrepeat => exact ⟨_, hlive, hrepeat⟩
  next => exact .inl ⟨List.count_eq_zero_of_not_mem hran, hlive⟩

theorem Ledger.addTimer {past : List TimerEvent} {q q' : TimerQueue} {new : NewTimer}
    (hq : Ledger past q) (hinv : QueueInv [] q') (hnew : Allocates [new] q q') :
    Ledger (past ++ [.added new]) q' where
  inv := hinv
  tracked := by
    intro new' hmem
    rcases hnew.new new (List.mem_singleton_self new) with ⟨hfresh, hlive⟩
    rcases List.mem_append.mp hmem with hold | hlast
    · refine (hq.tracked new' hold).of_cell (hnew.other _ ?_) (by simp [ranIn])
      intro haddress
      apply (hq.tracked new' hold).not_fresh
      rw [List.mem_singleton.mp haddress, hfresh]
    · obtain rfl : new' = new := by simpa using hlast
      refine tracked_of_live hlive ?_
      rw [ranIn_append, List.mem_append, not_or]
      exact ⟨hq.fresh _ hfresh, by simp [ranIn]⟩
  fresh := by
    intro a hfresh
    rw [ranIn_append, List.mem_append, not_or]
    refine ⟨hq.fresh a ?_, by simp [ranIn]⟩
    by_cases ha : a = new.address
    · rw [ha, (hnew.new new (List.mem_singleton_self new)).2] at hfresh
      cases hfresh
    · rw [← hnew.other a (by simpa using ha)]
      exact hfresh

/-- A one-shot timer that runs is deleted, a repeating one is set up again. -/
theorem Tracked.of_ran {past more : List TimerEvent} {out : List ℕ}
    {q mid q' : TimerQueue} {new : NewTimer} {t : Timer}
    (hnew : Tracked past q new) (hlive : q.cell new.address = .live t)
    (hmid : mid.cell new.address = q.cell new.address) (hretires : Retires out mid q')
    (hout : new.address ∈ out) (hcount : (ranIn more).count new.address = 1) :
    Tracked (past ++ more) q' new := by
  rw [hlive] at hmid
  unfold Tracked at *
  split at hnew
  next hrepeat =>
    rw [if_pos hrepeat]
    rcases hnew with ⟨t', hlive', hrepeat'⟩
    rw [hlive, Cell.live.injEq] at hlive'
    rw [← hlive'] at hrepeat'
    exact hretires.repeating _ hout t hmid hrepeat'
  next hrepeat =>
    rw [if_neg hrepeat, ranIn_append, List.count_append, hcount]
    rcases hnew with ⟨hzero, hlive'⟩ | ⟨_, hfreed⟩
    · rw [hlive, Cell.live.injEq] at hlive'
      rw [hlive'] at hmid
      exact .inr ⟨by omega, hretires.oneShot _ hout _ hmid (by simpa using hrepeat)⟩
    · rw [hlive] at hfreed
      cases hfreed

theorem Ledger.handleRead {past : List TimerEvent} {q q' : TimerQueue} {fired : Bool}
    {callbacks : ℕ → List NewTimer} {output : List TimerEvent} (hq : Ledger past q)
    (hhandled : Handled clock q fired callbacks q' output) :
    Ledger (past ++ output) q' := by
  rcases hhandled.cells with ⟨mid, hadds, hretires⟩
  have hran : ranIn output = (q.due clock).map Entry.second := by
    rw [hhandled.output_eq, ranIn_events]
  have hnodup : (ranIn output).Nodup := by
    rw [hran]
    exact hq.inv.nodup_expired (clock q.readings)
  have hlive : ∀ a ∈ ranIn output, ∃ t, q.cell a = .live t := by
    intro a ha
    rw [hran] at ha
    rcases List.mem_map.mp ha with ⟨e, he, rfl⟩
    rcases hq.inv.key e (SortedSet.mem_below.mp he).1 with ⟨t, hcell, _⟩
    exact ⟨t, hcell⟩
  rw [← hran] at hretires
  refine ⟨hhandled.inv, ?_, ?_⟩
  · intro new hmem
    rcases List.mem_append.mp hmem with hold | hlast
    · have hnew := hq.tracked new hold
      have hmid := hadds.cell_eq hnew.not_fresh
      by_cases ha : new.address ∈ ranIn output
      · rcases hlive _ ha with ⟨t, hcell⟩
        exact hnew.of_ran hcell hmid hretires ha (List.count_eq_one_of_mem hnodup ha)
      · exact hnew.of_cell ((hretires.other _ ha).trans hmid) ha
    · rw [hhandled.output_eq, added_mem_events] at hlast
      rcases hadds.new new hlast with ⟨hfresh, hcell⟩
      have ha : new.address ∉ ranIn output := by
        intro ha
        rcases hlive _ ha with ⟨t, hcell'⟩
        rw [hfresh] at hcell'
        cases hcell'
      refine tracked_of_live ((hretires.other _ ha).trans hcell) ?_
      rw [ranIn_append, List.mem_append, not_or]
      exact ⟨hq.fresh _ hfresh, ha⟩
  · intro a hfresh
    have ha : a ∉ ranIn output := by
      intro ha
      rcases hlive a ha with ⟨t, hcell⟩
      have hmid := hadds.cell_eq (a := a) (by simp [hcell])
      rw [hcell] at hmid
      cases hrepeat : t.repeat_ with
      | true =>
          rcases hretires.repeating a ha t hmid hrepeat with ⟨t', hlive', _⟩
          simp [hlive'] at hfresh
      | false => simp [hretires.oneShot a ha t hmid hrepeat] at hfresh
    rw [ranIn_append, List.mem_append, not_or]
    refine ⟨hq.fresh a ?_, ha⟩
    by_contra hne
    rw [hretires.other a ha, hadds.cell_eq hne] at hfresh
    exact hne hfresh

/-! ## Every run -/

abbrev eventsOf (calls : List TimerCall) : List TimerEvent :=
  calls.flatMap Call.output

theorem start_ledger : Ledger [] {} where
  inv := start_inv
  tracked := by simp
  fresh := by simp [ranIn]

def HistoryInv (clock : ℕ → Timestamp) (past : List TimerCall) (q : TimerQueue) :
    Prop :=
  Ledger (eventsOf past) q ∧
    ∀ call ∈ past, RunsExpired clock call ∧ ReportsAdded clock call

theorem step_ends {past : List TimerCall} {q : TimerQueue}
    (hq : HistoryInv clock past q) (i : TimerStep) :
    SafeEnds (fun r => HistoryInv clock (past ++ [⟨q, i, r.2⟩]) r.1)
      (q.step clock i) := by
  rcases hq with ⟨hledger, hpast⟩
  have hcalls : ∀ output,
      RunsExpired clock ⟨q, i, output⟩ ∧ ReportsAdded clock ⟨q, i, output⟩ →
      ∀ call ∈ past ++ [⟨q, i, output⟩],
        RunsExpired clock call ∧ ReportsAdded clock call := by
    intro output hlast call hcall
    rcases List.mem_append.mp hcall with hold | hcall
    · exact hpast call hold
    · rw [List.mem_singleton.mp hcall]
      exact hlast
  have hevents : ∀ output, eventsOf (past ++ [⟨q, i, output⟩]) =
      eventsOf past ++ output := by
    intro output
    simp [eventsOf]
  unfold HistoryInv
  simp only [hevents]
  cases i with
  | addTimer new =>
      refine (addTimer_ends hledger.inv new).bind ?_
      rintro q' ⟨hinv, hnew, _⟩
      exact ⟨hledger.addTimer hinv hnew, hcalls _ ⟨rfl, reportsAdded_addTimer q new⟩⟩
  | handleRead fired callbacks =>
      refine (handleRead_ends hledger.inv fired callbacks).mono ?_
      intro r hhandled
      exact ⟨hledger.handleRead hhandled,
        hcalls _ ⟨runsExpired_of_handled hledger.inv hhandled,
          reportsAdded_of_handled hledger.inv hhandled⟩⟩

/-- No run touches a timer that is not there.  When it ends, every key is the
expiration of its timer, every call of `handleRead` has run the timers that
were due, and every timer that a call has added is accounted for. -/
theorem timers_run_when_due (clock : ℕ → Timestamp) (steps : List TimerStep) :
    SafeEnds
      (fun r =>
        (∀ e ∈ r.1.timers_, ∃ t,
          r.1.cell e.second = .live t ∧ t.expiration_ = e.first) ∧
        (∀ call ∈ r.2, RunsExpired clock call) ∧
        ∀ call ∈ r.2, ∀ new ∈ addedIn clock call, r.1.Accounts (eventsOf r.2) new)
      (run (step clock) {} steps) := by
  have hstep : ∀ past q i, HistoryInv clock past q →
      SafeEnds (fun r => HistoryInv clock (past ++ [⟨q, i, r.2⟩]) r.1) (q.step clock i) :=
    fun _ _ i hq => step_ends hq i
  have hstart : HistoryInv clock [] {} := ⟨start_ledger, by simp⟩
  refine (Ends.run hstep hstart steps).mono ?_
  rintro ⟨q, calls⟩ ⟨hledger, hcalls⟩
  refine ⟨hledger.inv.key, fun call hcall => (hcalls call hcall).1, ?_⟩
  intro call hcall new hnew
  have hadded : .added new ∈ eventsOf calls :=
    List.mem_flatMap.mpr ⟨call, hcall, (hcalls call hcall).2 new hnew⟩
  exact (hledger.tracked new hadded).accounts hledger.inv

/-! ### A timer that repeats -/

def everyTen (reading : ℕ) : Timestamp := ⟨10 * reading⟩

/-- It runs when the clock reads 10, and adds a timer that runs once. -/
def repeatingTimer : NewTimer := ⟨1, ⟨⟨5⟩, 10, true⟩⟩

def oneShotTimer : NewTimer := ⟨2, ⟨⟨25⟩, 0, false⟩⟩

def repeatingSteps : List TimerStep :=
  [.addTimer repeatingTimer, .handleRead true fun _ => [oneShotTimer],
    .handleRead true fun _ => []]

theorem run_repeating : ∃ q calls, run (step everyTen) {} repeatingSteps = .ok (q, calls) ∧
    eventsOf calls =
      [.added repeatingTimer, .ran 1, .added oneShotTimer, .ran 2, .ran 1] ∧
    calls.map (addedIn everyTen) = [[repeatingTimer], [oneShotTimer], []] :=
  ⟨_, _, rfl, by decide, by decide⟩

/-- The timer that repeats keeps one entry, and the other one is deleted. -/
theorem timers_run_when_due_repeating : ∃ q calls,
    run (step everyTen) {} repeatingSteps = .ok (q, calls) ∧
    q.HasOneEntry 1 ∧ q.cell 2 = .freed := by
  obtain ⟨q, calls, hrun, hevents, hadded⟩ := run_repeating
  obtain ⟨_, _, haccounts⟩ := (timers_run_when_due everyTen repeatingSteps).of_eq_ok hrun
  rw [hevents] at haccounts
  have hall : ∀ adds ∈ calls.map (addedIn everyTen), ∀ new ∈ adds, q.Accounts _ new :=
    List.forall_mem_map.mpr haccounts
  rw [hadded] at hall
  have hone := hall [repeatingTimer] (by simp) repeatingTimer (by simp)
  have htwo := hall [oneShotTimer] (by simp) oneShotTimer (by simp)
  refine ⟨q, calls, hrun, hone, ?_⟩
  rcases htwo with ⟨hnone, _⟩ | ⟨_, hfreed, _⟩
  · exact absurd hnone (by decide)
  · exact hfreed

end TimerQueue

end MyFileServer
