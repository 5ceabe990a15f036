import MyFileServer.Net.LoopThreads

/-!
# Starting the loops

`start` waits for one thread after the other and puts the loops into `loops_`
in this order, each after its thread wrote `tid_` and its callback returned.
The signal is never missed: as long as the loop that the owner waits for has
not already ended, the owner or this thread can go on, and `startWork` bounds
how often they do.
-/

namespace MyFileServer

open Execution

/-- In `EventLoopThreadPool::start`. -/
def OwnerState.isStarting : OwnerState → Bool
  | .creating _ | .semWaiting _ | .locking _ | .waiting _ => true
  | .idle | .started | .destroying _ | .quitting _ | .calling _ | .checking _ | .joining _
  | .destroyed => false

namespace EventLoopThreadPool

open EventLoopThread

/-! ## A loop that ends too early -/

/-- The owner waits for a loop whose thread has already reset `loop_`. -/
def Lost (pool : EventLoopThreadPool) : Prop :=
  ∃ i, (pool.owner = .locking i ∨ pool.owner = .waiting i) ∧
    (pool.threads_ i).state.hasReset = true

theorem hasReset_next {pool pool' : EventLoopThreadPool} {j : ℕ}
    (hkeeps : (pool.threads_ j).Keeps (pool'.threads_ j))
    (hreset : (pool.threads_ j).state.hasReset = true) :
    (pool'.threads_ j).state.hasReset = true :=
  LoopThreadState.hasReset_iff.mpr (hkeeps.left (LoopThreadState.hasReset_iff.mp hreset))

theorem Lost.next {pool pool' : EventLoopThreadPool} {input : LoopThreadInput}
    (hpool : pool.Inv) (hlost : pool.Lost) (hstep : Transition pool input pool') :
    pool'.Lost := by
  obtain ⟨j, howner, hended⟩ := hlost
  have hnull : (pool.threads_ j).loop_ = false := by
    rw [← Bool.not_eq_true, (hpool.shape j).loop_iff]
    have hphase := LoopThreadState.hasReset_iff.mp hended
    omega
  cases hstep with
  | start hstate | create hstate | started hstate | semWait hstate | found hstate
    | skip hstate | destroyed hstate | point hstate | quit hstate | check hstate
    | join hstate =>
      rw [hstate] at howner
      rcases howner with howner | howner <;> cases howner
  | destroy hstate =>
      rcases hstate with hstate | hstate <;> rw [hstate] at howner <;>
        rcases howner with howner | howner <;> cases howner
  | take hstate hloop =>
      rw [hstate] at howner
      rcases howner with howner | howner <;> cases howner
      rw [hloop] at hnull
      cases hnull
  | wait hstate =>
      rw [hstate] at howner
      rcases howner with howner | howner <;> cases howner
      exact ⟨j, .inr rfl, hended⟩
  | wake hstate =>
      rw [hstate] at howner
      rcases howner with howner | howner <;> cases howner
      exact ⟨j, .inl rfl, hended⟩
  | run hruns => exact ⟨j, howner, hasReset_next (keeps_set hruns.keeps j) hended⟩
  | @publish i hstate =>
      have hne : j ≠ i := by
        rintro rfl
        simp [hstate, LoopThreadState.hasReset] at hended
      refine ⟨j, ?_, ?_⟩
      · unfold notify
        split
        next hwaiting =>
          rw [set_owner] at hwaiting
          rw [hwaiting] at howner
          rcases howner with howner | howner <;> cases howner
          exact absurd rfl hne
        next => exact howner
      · rw [notify_threads_, set_of_ne pool _ hne]
        exact hended
  | otherQuit => exact ⟨j, howner, hasReset_next (keeps_set (keeps_quit _ true) j) hended⟩

theorem Lost.run {pool final : EventLoopThreadPool} {inputs : List LoopThreadInput} {calls}
    (hpool : pool.Inv) (hlost : pool.Lost)
    (hrun : Execution.run step pool inputs = .ok (final, calls)) : final.Lost := by
  have hstep : ∀ pool input pool' output, Inv pool ∧ pool.Lost → True →
      step pool input = .ok (pool', output) → Inv pool' ∧ pool'.Lost := by
    intro pool input pool' output hpool _ hnext
    have htransition := transition_of_next (step_eq_ok.mp hnext)
    exact ⟨hpool.1.next htransition, hpool.2.next hpool.1 htransition⟩
  exact (run_invariant hstep hrun ⟨hpool, hlost⟩ fun _ _ => trivial).1.2

/-! ## Loops that nobody else stops -/

/-- The destructor of the pool has not yet called `quit` of this loop. -/
def Spared (j : ℕ) : OwnerState → Prop
  | .destroying i | .quitting i | .calling i => i ≤ j
  | .checking i | .joining i => i < j
  | .destroyed => False
  | .idle | .creating _ | .semWaiting _ | .locking _ | .waiting _ | .started => True

def Quiet (pool : EventLoopThreadPool) : Prop :=
  ∀ j, Spared j pool.owner → (pool.threads_ j).quit_ = false ∧ pool.phase j ≤ 7

theorem quiet_initial (numThreads : ℕ) (callback : Bool) :
    (initial numThreads callback).Quiet :=
  fun _ _ => ⟨rfl, by simp [initial, phase, LoopThreadState.phase]⟩

/-- A step of a thread that leaves the owner where it is. -/
theorem Quiet.set {pool : EventLoopThreadPool} (hpool : pool.Quiet) {i : ℕ}
    {t : EventLoopThread} {owner : OwnerState}
    (hspared : ∀ j, Spared j owner → Spared j pool.owner)
    (ht : Spared i owner → t.quit_ = false ∧ t.state.phase ≤ 7) :
    ((pool.set i t).moveTo owner).Quiet := by
  intro j hj
  unfold phase
  rw [moveTo_threads_]
  by_cases hji : j = i
  · rw [hji, set_self]
    exact ht (hji ▸ hj)
  · rw [set_of_ne pool t hji]
    exact hpool j (hspared j hj)

theorem Quiet.next {pool pool' : EventLoopThreadPool} {input : LoopThreadInput}
    (hpool : pool.Quiet) (hinput : ∀ i, input ≠ .quit i)
    (hstep : Transition pool input pool') : pool'.Quiet := by
  cases hstep with
  | start hstate | wake hstate | take hstate | wait hstate | started hstate =>
      exact fun j _ => hpool j (by rw [hstate]; trivial)
  | @create i hstate =>
      exact hpool.set (fun j _ => by rw [hstate]; trivial)
        fun _ => ⟨rfl, by simp [LoopThreadState.phase]⟩
  | semWait hstate =>
      exact hpool.set (fun j _ => by rw [hstate]; trivial)
        fun _ => hpool _ (by rw [hstate]; trivial)
  | @run i t hruns =>
      exact hpool.set (fun _ hj => hj) fun hi => hruns.quiet (hpool i hi).1 (hpool i hi).2
  | @publish i =>
      unfold notify
      split
      next hwaiting =>
        refine hpool.set (fun j _ => ?_) fun _ => ?_
        · rw [show pool.owner = _ from hwaiting]
          trivial
        · refine ⟨(hpool i ?_).1, by simp [LoopThreadState.phase]⟩
          rw [show pool.owner = _ from hwaiting]
          trivial
      next =>
        exact hpool.set (fun _ hj => hj)
          fun hi => ⟨(hpool i hi).1, by simp [LoopThreadState.phase]⟩
  | otherQuit => exact absurd rfl (hinput _)
  | destroy hstate =>
      intro j _
      refine hpool j ?_
      rcases hstate with hstate | hstate <;> rw [hstate] <;> trivial
  | found hstate | point hstate | check hstate =>
      exact fun j hj => hpool j (by rw [hstate]; exact hj)
  | skip hstate => exact fun j hj => hpool j (by rw [hstate]; exact Nat.le_of_succ_le hj)
  | destroyed => exact fun _ hj => hj.elim
  | quit hstate =>
      exact hpool.set (fun j hj => by rw [hstate]; exact (show _ < j from hj).le)
        fun hi => absurd hi (lt_irrefl _)
  | join hstate => exact fun j hj => hpool j (by rw [hstate]; exact hj)

theorem Quiet.run {pool final : EventLoopThreadPool} {inputs : List LoopThreadInput} {calls}
    (hpool : pool.Quiet) (hinputs : ∀ i, .quit i ∉ inputs)
    (hrun : Execution.run step pool inputs = .ok (final, calls)) : final.Quiet := by
  have hstep : ∀ (pool : EventLoopThreadPool) input pool' output, pool.Quiet →
      (∀ i, input ≠ .quit i) → step pool input = .ok (pool', output) → pool'.Quiet := by
    intro pool input pool' output hpool hinput hnext
    exact hpool.next hinput (transition_of_next (step_eq_ok.mp hnext))
  refine (run_invariant hstep hrun hpool ?_).1
  intro call hcall i hquit
  refine hinputs i ?_
  rw [← run_inputs hrun, ← hquit]
  exact List.mem_map_of_mem hcall

/-! ## The work of `start` -/

/-- A step of `start` or of a thread that has not yet signalled. -/
def startStep (pool : EventLoopThreadPool) : LoopThreadInput → Bool
  | .owner => pool.owner.isStarting
  | .thread i => pool.owner.isStarting && pool.phase i ≤ 4
  | _ => false

/-- A thread that signals may have to send the owner back to the lock. -/
def toSignal : LoopThreadState → ℕ
  | .starting => 5
  | .posting => 4
  | .initialising => 3
  | .publishing => 2
  | .absent | .entering | .testing | .polling | .leaving | .unlocking | .unwinding
  | .finished => 0

def startWork (pool : EventLoopThreadPool) : ℕ :=
  match pool.owner with
  | .creating i => 10 * (pool.numThreads_ - i) + 1
  | .semWaiting i => 10 * (pool.numThreads_ - (i + 1)) + toSignal (pool.threads_ i).state + 4
  | .locking i => 10 * (pool.numThreads_ - (i + 1)) + toSignal (pool.threads_ i).state + 3
  | .waiting i => 10 * (pool.numThreads_ - (i + 1)) + toSignal (pool.threads_ i).state + 2
  | .idle | .started | .destroying _ | .quitting _ | .calling _ | .checking _ | .joining _
  | .destroyed => 0

theorem toSignal_of_runs {callback : Bool} {t t' : EventLoopThread}
    (hruns : t.Runs callback t') :
    toSignal t'.state + (if t.state.phase ≤ 4 then 1 else 0) ≤ toSignal t.state := by
  cases hruns with
  | tid hstate | initialised hstate | enter hstate | stay hstate | stop hstate
    | poll hstate | leave hstate | unlock hstate | unwind hstate =>
      simp [hstate, toSignal, LoopThreadState.phase]
  | post hstate => cases callback <;> simp [hstate, toSignal, LoopThreadState.phase]

/-- While the owner starts threads, only the last one has not yet signalled. -/
theorem Inv.last_of_phase {pool : EventLoopThreadPool} (hpool : pool.Inv) {j : ℕ}
    (hpos : 0 < pool.phase j) (hbefore : pool.phase j ≤ 4)
    (hstarting : pool.owner.isStarting = true) :
    pool.owner = .semWaiting j ∨ pool.owner = .locking j ∨ pool.owner = .waiting j := by
  have howner := hpool.owner
  have hsize := hpool.present hpos
  have hnot : j ∉ pool.loops_ := fun hj => absurd (hpool.handed j hj) (by omega)
  unfold OwnerInv at howner
  cases hstate : pool.owner with
  | idle | started | destroying _ | quitting _ | calling _ | checking _ | joining _
    | destroyed =>
      rw [hstate] at hstarting
      cases hstarting
  | creating i =>
      rw [hstate] at howner
      rw [howner.1.loops_eq, List.mem_range] at hnot
      rw [howner.1.size_eq] at hsize
      exact absurd hsize hnot
  | semWaiting i | locking i | waiting i =>
      rw [hstate] at howner
      rw [howner.1.loops_eq, List.mem_range] at hnot
      rw [howner.1.size_eq] at hsize
      have hji : j = i := by omega
      simp [hji]

theorem startWork_set {pool : EventLoopThreadPool} {i : ℕ} {t : EventLoopThread}
    (ht : toSignal t.state ≤ toSignal (pool.threads_ i).state) :
    (pool.set i t).startWork ≤ pool.startWork := by
  have hj : ∀ j, toSignal ((pool.set i t).threads_ j).state ≤
      toSignal (pool.threads_ j).state := by
    intro j
    by_cases hji : j = i
    · rw [hji, set_self]
      exact ht
    · rw [set_of_ne pool t hji]
  unfold startWork
  rw [set_owner]
  cases pool.owner with
  | idle | creating _ | started | destroying _ | quitting _ | calling _ | checking _
    | joining _ | destroyed => exact le_rfl
  | semWaiting k | locking k | waiting k =>
      have hk := hj k
      change 10 * (pool.numThreads_ - (k + 1)) + _ + _ ≤ _
      simp only
      omega

/-- When the last thread goes on, the owner has as much less to wait for. -/
theorem startWork_set_last {pool : EventLoopThreadPool} {i : ℕ} {t : EventLoopThread}
    (hlast : pool.owner = .semWaiting i ∨ pool.owner = .locking i ∨ pool.owner = .waiting i) :
    (pool.set i t).startWork + toSignal (pool.threads_ i).state =
      pool.startWork + toSignal t.state := by
  unfold startWork
  rw [set_owner]
  rcases hlast with howner | howner | howner <;> rw [howner] <;> simp only [set_self] <;>
    change 10 * (pool.numThreads_ - (i + 1)) + _ + _ + _ = _ <;> omega

theorem startWork_notify (pool : EventLoopThreadPool) (i : ℕ) :
    (pool.notify i).startWork ≤ pool.startWork + 1 := by
  unfold notify
  split
  next hwaiting =>
    unfold startWork
    rw [hwaiting]
    simp only [moveTo_owner, moveTo_threads_]
    change 10 * (pool.numThreads_ - (i + 1)) + _ + _ ≤ _
    omega
  next => exact Nat.le_succ _

theorem startWork_thread {pool pool' : EventLoopThreadPool} {i : ℕ} (hpool : pool.Inv)
    (hstep : Transition pool (.thread i) pool') :
    pool'.startWork + (if pool.startStep (.thread i) then 1 else 0) ≤ pool.startWork := by
  by_cases hcounts : pool.startStep (.thread i) = true
  · rw [if_pos hcounts]
    simp only [startStep, Bool.and_eq_true, decide_eq_true_eq] at hcounts
    obtain ⟨hstarting, hbefore⟩ := hcounts
    cases hstep with
    | @run _ t hruns =>
        have hlast := hpool.last_of_phase hruns.phase_pos hbefore hstarting
        have hset := startWork_set_last hlast (t := t)
        have hsignal := toSignal_of_runs hruns
        rw [if_pos (by exact hbefore)] at hsignal
        omega
    | publish hstate =>
        have hlast := hpool.last_of_phase (by simp [phase, hstate, LoopThreadState.phase])
          hbefore hstarting
        have hset := startWork_set_last hlast
          (t := { pool.threads_ i with loop_ := true, state := .entering })
        rw [hstate] at hset
        change _ + 2 = _ + 0 at hset
        have hnotify := startWork_notify
          (pool.set i { pool.threads_ i with loop_ := true, state := .entering }) i
        omega
  · rw [if_neg hcounts]
    cases hstep with
    | run hruns => exact startWork_set ((Nat.le_add_right _ _).trans (toSignal_of_runs hruns))
    | publish hstate =>
        have hidle : pool.owner.isStarting = false := by
          simpa [startStep, phase, hstate, LoopThreadState.phase] using hcounts
        unfold notify
        rw [if_neg (by
          rw [set_owner]
          intro hwaiting
          rw [hwaiting] at hidle
          cases hidle)]
        exact startWork_set (by simp [toSignal])

theorem startWork_next {pool pool' : EventLoopThreadPool} {input : LoopThreadInput}
    (hpool : pool.Inv) (hbegun : pool.owner ≠ .idle) (hstep : Transition pool input pool') :
    pool'.startWork + (if pool.startStep input then 1 else 0) ≤
      pool.startWork + (if input = .wake then 1 else 0) := by
  cases hstep with
  | start hstate => exact absurd hstate hbegun
  | @create i hstate hlt =>
      have hthread : ((pool.set i { state := .starting }).threads_ i).state = .starting := by
        rw [set_self]
      simp only [startWork, startStep, hstate, moveTo_owner, moveTo_threads_, hthread, toSignal,
        OwnerState.isStarting]
      simp
      omega
  | started hstate =>
      simp [startWork, startStep, hstate, OwnerState.isStarting]
  | @semWait i hstate =>
      have hthread : ((pool.set i { pool.threads_ i with
          sem := (pool.threads_ i).sem - 1 }).threads_ i).state = (pool.threads_ i).state := by
        rw [set_self]
      simp only [startWork, startStep, hstate, moveTo_owner, moveTo_threads_, hthread,
        OwnerState.isStarting]
      simp
  | @take i hstate =>
      simp only [startWork, startStep, hstate, moveTo_owner, OwnerState.isStarting]
      simp
      omega
  | @wait i hstate =>
      simp only [startWork, startStep, hstate, moveTo_owner, moveTo_threads_,
        OwnerState.isStarting]
      simp
  | @wake i hstate =>
      simp only [startWork, startStep, hstate, moveTo_owner, moveTo_threads_]
      simp
  | run hruns => exact (startWork_thread hpool (.run hruns)).trans (Nat.le_add_right _ _)
  | publish hstate => exact (startWork_thread hpool (.publish hstate)).trans (Nat.le_add_right _ _)
  | @otherQuit i =>
      have hset := startWork_set (i := i) (t := { pool.threads_ i with quit_ := true }) le_rfl
      simpa [startStep] using hset
  | destroy =>
      simp [startWork, startStep]
  | found hstate | skip hstate | destroyed hstate | point hstate | quit hstate | check hstate
    | join hstate =>
      simp [startWork, startStep, hstate, OwnerState.isStarting]

theorem begun_next {pool pool' : EventLoopThreadPool} {input : LoopThreadInput}
    (hbegun : pool.owner ≠ .idle) (hstep : Transition pool input pool') :
    pool'.owner ≠ .idle := by
  cases hstep with
  | run | otherQuit => exact hbegun
  | publish =>
      unfold notify
      split
      · intro h
        cases h
      · exact hbegun
  | start | create | started | semWait | take | wait | wake | destroy | found | skip
    | destroyed | point | quit | check | join =>
      intro h
      cases h

theorem startWork_run {pool final : EventLoopThreadPool} {inputs : List LoopThreadInput}
    {calls} (hpool : pool.Inv) (hbegun : pool.owner ≠ .idle)
    (hrun : Execution.run step pool inputs = .ok (final, calls)) :
    final.startWork + calls.countP (fun call => call.pre.startStep call.input) ≤
      pool.startWork + inputs.count .wake := by
  induction inputs generalizing pool calls with
  | nil =>
      obtain ⟨rfl, rfl⟩ := run_nil_eq_ok.mp hrun
      exact le_rfl
  | cons input inputs ih =>
      obtain ⟨next, _, rest, hstep, hrest, rfl⟩ := run_cons_eq_ok.mp hrun
      have hfirst := transition_of_next (step_eq_ok.mp hstep)
      have hwork := startWork_next hpool hbegun hfirst
      have hlater := ih (hpool.next hfirst) (begun_next hbegun hfirst) hrest
      rw [List.countP_cons, List.count_cons]
      simp only [beq_iff_eq]
      omega

/-- The owner or the last thread can go on, unless its loop has ended. -/
theorem Inv.start_enabled {pool : EventLoopThreadPool} (hpool : pool.Inv)
    (hstarting : pool.owner.isStarting = true) (hlost : ¬ pool.Lost) :
    ∃ input, pool.startStep input = true ∧ Returns (pool.next input) := by
  have howner := hpool.owner
  unfold OwnerInv at howner
  have hthread : ∀ i, 0 < pool.phase i → pool.phase i ≤ 4 →
      ∃ input, pool.startStep input = true ∧ Returns (pool.next input) := by
    intro i hpos hbefore
    refine ⟨.thread i, by simp [startStep, hstarting, hbefore], ?_⟩
    unfold phase at hpos hbefore
    simp only [EventLoopThreadPool.next, threadStep]
    cases hstate : (pool.threads_ i).state <;> rw [hstate] at hpos hbefore <;>
      simp_all [LoopThreadState.phase]
  have hself : Returns pool.ownerStep →
      ∃ input, pool.startStep input = true ∧ Returns (pool.next input) :=
    fun h => ⟨.owner, hstarting, h⟩
  cases hstate : pool.owner with
  | idle | started | destroying _ | quitting _ | calling _ | checking _ | joining _
    | destroyed =>
      rw [hstate] at hstarting
      cases hstarting
  | creating i =>
      apply hself
      unfold ownerStep
      simp only [hstate]
      split
      · exact returns_ok _
      · split <;> exact returns_ok _
  | semWaiting i =>
      rw [hstate] at howner
      obtain ⟨_, _, hmade, hsem⟩ := howner
      by_cases hposted : 3 ≤ pool.phase i
      · apply hself
        unfold ownerStep
        simp only [hstate]
        rw [if_neg (hsem.mpr hposted)]
        exact returns_ok _
      · exact hthread i hmade (by omega)
  | locking i =>
      apply hself
      unfold ownerStep
      simp only [hstate]
      split
      next hlocked => exact absurd ⟨i, .inl hstate, by rw [hlocked]; decide⟩ hlost
      next => split <;> exact returns_ok _
  | waiting i =>
      rw [hstate] at howner
      obtain ⟨_, _, hposted, hbefore | hended⟩ := howner
      · exact hthread i (Nat.lt_of_lt_of_le (by decide) hposted) hbefore
      · exact absurd ⟨i, .inr hstate, LoopThreadState.hasReset_iff.mpr hended⟩ hlost

/-! ## The promise of `start` -/

/-- For the state `final` after the inputs. -/
structure StartsLoops (inputs : List LoopThreadInput) (final : EventLoopThreadPool) : Prop where
  /-- The loops are handed over in order, each when its thread has an id and its
  callback has returned, once. -/
  handed : ∃ k ≤ final.numThreads_, final.loops_ = List.range k ∧
    ∀ i < k, (final.threads_ i).tid_ = true ∧
      (final.threads_ i).initialised = if final.callback_ then 1 else 0
  complete : final.owner = .started → final.loops_ = List.range final.numThreads_ ∧
    final.baseInitialised = if final.numThreads_ = 0 ∧ final.callback_ then 1 else 0
  /-- `start` ends after a bounded number of steps, the wakeups without a reason
  aside, unless the loop that it waits for has already ended. -/
  ends : final.owner.isStarting = true →
    ∀ more last calls, run step final more = .ok (last, calls) →
      calls.countP (fun call => call.pre.startStep call.input) ≤
          final.startWork + more.count .wake ∧
        (last.owner.isStarting = false ∨ last.Lost ∨
          ∃ input, last.startStep input = true ∧ Returns (last.next input))
  /-- From then on it never ends. -/
  stuck : final.Lost →
    ∀ more last calls, run step final more = .ok (last, calls) → last.Lost
  /-- Nothing but a call of `quit` makes a loop end. -/
  survives : (∀ i, .quit i ∉ inputs) → ¬ final.Lost

theorem Inv.initialised {pool : EventLoopThreadPool} (hpool : pool.Inv) {i : ℕ}
    (hi : i ∈ pool.loops_) : (pool.threads_ i).tid_ = true ∧
      (pool.threads_ i).initialised = if pool.callback_ then 1 else 0 := by
  have hphase : 5 ≤ (pool.threads_ i).state.phase := hpool.handed i hi
  refine ⟨(hpool.shape i).tid_iff.mpr (by omega), ?_⟩
  rw [(hpool.shape i).initialised_eq]
  have hcalled : 4 ≤ (pool.threads_ i).state.phase := by omega
  simp [hcalled]

/-- The owner would see a loop that has ended only behind a call of `quit`. -/
theorem Quiet.not_lost {pool : EventLoopThreadPool} (hpool : pool.Quiet) : ¬ pool.Lost := by
  rintro ⟨i, howner, hended⟩
  have hphase := (hpool i (by rcases howner with howner | howner <;> rw [howner] <;> trivial)).2
  have hreset := LoopThreadState.hasReset_iff.mp hended
  unfold phase at hphase
  omega

theorem start_startsLoops {numThreads : ℕ} {callback : Bool} {inputs : List LoopThreadInput}
    {final : EventLoopThreadPool} {calls}
    (hrun : run step (initial numThreads callback) inputs = .ok (final, calls)) :
    StartsLoops inputs final := by
  have hfinal := (inv_initial numThreads callback).run hrun
  constructor
  case handed =>
    obtain ⟨k, hk, hloops⟩ := hfinal.loops_range
    refine ⟨k, hk, hloops, ?_⟩
    intro i hi
    exact hfinal.initialised (by rw [hloops, List.mem_range]; exact hi)
  case complete =>
    intro hstarted
    have howner := hfinal.owner
    unfold OwnerInv at howner
    rw [hstarted] at howner
    exact ⟨howner.1, howner.2.2⟩
  case ends =>
    intro hstarting more last calls hmore
    have hbegun : final.owner ≠ .idle := by
      intro hidle
      rw [hidle] at hstarting
      cases hstarting
    have hwork := startWork_run hfinal hbegun hmore
    refine ⟨(Nat.le_add_left _ _).trans hwork, ?_⟩
    by_cases hgoes : last.owner.isStarting = true
    · by_cases hlost : last.Lost
      · exact .inr (.inl hlost)
      · exact .inr (.inr ((hfinal.run hmore).start_enabled hgoes hlost))
    · exact .inl (Bool.not_eq_true _ ▸ hgoes)
  case stuck =>
    intro hlost more last calls hmore
    exact hlost.run hfinal hmore
  case survives =>
    intro hinputs
    exact ((quiet_initial numThreads callback).run hinputs hrun).not_lost

/-- Two threads; the owner waits for the second one, wakes up for no reason, and
waits again before the signal. -/
def twoLoops : List LoopThreadInput :=
  [.start, .owner, .thread 0, .thread 0, .owner, .thread 0, .thread 0, .owner, .owner,
    .thread 1, .thread 1, .owner, .owner, .wake, .owner, .thread 1, .thread 0, .thread 1,
    .owner, .owner]

theorem start_startsLoops_twoLoops :
    ∃ final calls, run step (initial 2 true) twoLoops = .ok (final, calls) ∧
      final.owner = .started ∧ final.loops_ = [0, 1] ∧ StartsLoops twoLoops final := by
  have hrun : ∃ final calls, run step (initial 2 true) twoLoops = .ok (final, calls) ∧
      final.owner = .started ∧ final.loops_ = [0, 1] := ⟨_, _, rfl, rfl, rfl⟩
  obtain ⟨final, calls, hrun, howner, hloops⟩ := hrun
  exact ⟨final, calls, hrun, howner, hloops, start_startsLoops hrun⟩

end EventLoopThreadPool

end MyFileServer
