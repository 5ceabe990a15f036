import MyFileServer.Net.LoopThreadStart

/-!
# Ending the loops

The destructor of the pool stops one loop after the other and joins its thread.
`EventLoop::loop` resets `quit_` when it begins, so a call of `quit` before that
is lost, and the destructor waits until somebody else calls it again.  It reads
`loop_` without the lock: when somebody else has stopped a loop it can find the
pointer null, lose the loop before it has called it, or go on while the thread
has still to release the mutex.
-/

namespace MyFileServer

open Execution

/-- In the destructor of the pool. -/
def OwnerState.isEnding : OwnerState → Bool
  | .destroying _ | .quitting _ | .calling _ | .checking _ | .joining _ => true
  | .idle | .creating _ | .semWaiting _ | .locking _ | .waiting _ | .started | .destroyed =>
      false

/-- The thread will see that it shall leave. -/
def EventLoopThread.heard (t : EventLoopThread) : Bool :=
  match t.state with
  | .testing | .polling => t.quit_
  | .leaving | .unlocking | .unwinding | .finished => true
  | .absent | .starting | .posting | .initialising | .publishing | .entering => false

/-- The steps of the thread up to the join, when it has heard the call. -/
def EventLoopThread.toJoin (t : EventLoopThread) : ℕ :=
  if t.heard then
    match t.state with
    | .testing => 5
    | .leaving => 4
    | .unlocking => 3
    | .unwinding => 2
    | .finished => 1
    | _ => 6
  else 6

namespace EventLoopThread

theorem toJoin_le (t : EventLoopThread) : t.toJoin ≤ 6 := by
  unfold toJoin
  split
  · split <;> decide
  · exact le_rfl

variable {callback : Bool} {t t' : EventLoopThread}

theorem Runs.heard (hruns : t.Runs callback t') (ht : t.heard = true) :
    t'.heard = true ∧ t'.toJoin + 1 ≤ t.toJoin := by
  cases hruns with
  | tid hstate | post hstate | initialised hstate | enter hstate =>
      simp [EventLoopThread.heard, hstate] at ht
  | stay hstate hquit =>
      simp [EventLoopThread.heard, hstate, hquit] at ht
  | stop hstate hquit | poll hstate | leave hstate | unlock hstate | unwind hstate =>
      simp_all [EventLoopThread.heard, toJoin]

/-- A thread that missed the call goes on without it. -/
theorem Runs.not_heard (hruns : t.Runs callback t') (hentered : 5 ≤ t.state.phase)
    (ht : t.heard = false) : t'.heard = false := by
  cases hruns with
  | tid hstate | post hstate | initialised hstate =>
      simp [hstate, LoopThreadState.phase] at hentered
  | enter hstate | stay hstate hquit | poll hstate | stop hstate hquit | leave hstate
    | unlock hstate | unwind hstate => simp_all [EventLoopThread.heard]

theorem heard_quit (hentered : 5 ≤ t.state.phase) :
    heard { t with quit_ := true } = true ↔ t.state ≠ .entering := by
  cases hstate : t.state <;> simp_all [EventLoopThread.heard, LoopThreadState.phase]

theorem toJoin_quit (t : EventLoopThread) : toJoin { t with quit_ := true } ≤ t.toJoin := by
  cases hstate : t.state <;> cases hquit : t.quit_ <;>
    simp [toJoin, EventLoopThread.heard, hstate, hquit]

end EventLoopThread

namespace EventLoopThreadPool

open EventLoopThread

/-- The destructor waits for a thread that did not see its call of `quit`. -/
def Missed (pool : EventLoopThreadPool) : Prop :=
  ∃ i, (pool.owner = .checking i ∨ pool.owner = .joining i) ∧
    (pool.threads_ i).heard = false

/-- A step of the destructor, or of a thread that it waits for and that has
heard it. -/
def endStep (pool : EventLoopThreadPool) : LoopThreadInput → Bool
  | .owner => pool.owner.isEnding
  | .thread i => pool.owner = .joining i && (pool.threads_ i).heard
  | _ => false

def endWork (pool : EventLoopThreadPool) : ℕ :=
  match pool.owner with
  | .destroying i => 10 * (pool.size - i) + 1
  | .quitting i => 10 * (pool.size - (i + 1)) + 10
  | .calling i => 10 * (pool.size - (i + 1)) + 9
  | .checking i => 10 * (pool.size - (i + 1)) + 8
  | .joining i => 10 * (pool.size - (i + 1)) + (pool.threads_ i).toJoin + 1
  | .idle | .creating _ | .semWaiting _ | .locking _ | .waiting _ | .started | .destroyed => 0

/-! ## What can go wrong -/

/-- A step that uses what is not there. -/
inductive Faults (pool : EventLoopThreadPool) : LoopThreadInput → LoopThreadStop → Prop
  | null {i : ℕ} : pool.owner = .quitting i → (pool.threads_ i).loop_ = false →
      Faults pool .owner .nullLoop
  | call {i : ℕ} : pool.owner = .calling i → (pool.threads_ i).state.hasLoop = false →
      Faults pool .owner .danglingLoop
  | check {i : ℕ} : pool.owner = .checking i → (pool.threads_ i).state.hasLoop = false →
      Faults pool .owner .danglingLoop
  | unlock {i : ℕ} : (pool.threads_ i).state = .unlocking → pool.owner.hasDestroyed i = true →
      Faults pool (.thread i) .danglingMutex

theorem faults_of_ownerStep {pool : EventLoopThreadPool} {stop : LoopThreadStop}
    (h : pool.ownerStep = .error stop) (hstop : stop ≠ .notEnabled) :
    Faults pool .owner stop := by
  unfold ownerStep at h
  cases howner : pool.owner with
  | idle | waiting _ | started | destroyed =>
      simp only [howner] at h
      cases h
      exact absurd rfl hstop
  | creating i | destroying i =>
      simp only [howner] at h
      split at h <;> (try split at h) <;> cases h
  | semWaiting i | joining i =>
      simp only [howner] at h
      split at h <;> cases h
      exact absurd rfl hstop
  | locking i =>
      simp only [howner] at h
      split at h
      next =>
        cases h
        exact absurd rfl hstop
      next => split at h <;> cases h
  | quitting i =>
      simp only [howner] at h
      split at h
      next => cases h
      next hloop =>
        cases h
        exact .null howner (Bool.not_eq_true _ ▸ hloop)
  | calling i =>
      simp only [howner] at h
      split at h
      next => cases h
      next hloop =>
        cases h
        exact .call howner (Bool.not_eq_true _ ▸ hloop)
  | checking i =>
      simp only [howner] at h
      split at h
      next => cases h
      next hloop =>
        cases h
        exact .check howner (Bool.not_eq_true _ ▸ hloop)

theorem faults_of_threadStep {pool : EventLoopThreadPool} {i : ℕ} {stop : LoopThreadStop}
    (h : pool.threadStep i = .error stop) (hstop : stop ≠ .notEnabled) :
    Faults pool (.thread i) stop := by
  unfold threadStep at h
  cases hstate : (pool.threads_ i).state with
  | absent | finished =>
      simp only [hstate] at h
      cases h
      exact absurd rfl hstop
  | starting | posting | initialising | publishing | entering | testing | polling | leaving
    | unwinding =>
      simp only [hstate] at h
      cases h
  | unlocking =>
      simp only [hstate] at h
      split at h
      next hgone =>
        cases h
        exact .unlock hstate hgone
      next => cases h

theorem faults_of_next {pool : EventLoopThreadPool} {input : LoopThreadInput}
    {stop : LoopThreadStop} (h : pool.next input = .error stop)
    (hstop : stop ≠ .notEnabled) : Faults pool input stop := by
  cases input with
  | owner => exact faults_of_ownerStep h hstop
  | thread i => exact faults_of_threadStep h hstop
  | start | wake | quit i | destroy =>
      simp only [EventLoopThreadPool.next] at h
      split at h <;> cases h
      exact absurd rfl hstop

/-- A loop that the destructor deals with is behind its signal. -/
theorem Inv.entered {pool : EventLoopThreadPool} (hpool : pool.Inv) {i : ℕ}
    (howner : pool.owner = .quitting i ∨ pool.owner = .calling i ∨ pool.owner = .checking i ∨
      pool.owner = .joining i) : 5 ≤ pool.phase i := by
  have hinv := hpool.owner
  unfold OwnerInv at hinv
  rcases howner with howner | howner | howner | howner <;> rw [howner] at hinv <;>
    exact hpool.handed i (by rw [hinv.1.loops_eq, List.mem_range]; exact hinv.2)

theorem Inv.loop_of_entered {pool : EventLoopThreadPool} (hpool : pool.Inv) {i : ℕ}
    (hentered : 5 ≤ pool.phase i) :
    (pool.threads_ i).loop_ = false ↔ (pool.threads_ i).state.hasReset = true := by
  rw [← Bool.not_eq_true, (hpool.shape i).loop_iff, LoopThreadState.hasReset_iff]
  unfold phase at hentered
  omega

theorem finished_of_entered {pool : EventLoopThreadPool} {i : ℕ} (hentered : 5 ≤ pool.phase i) :
    (pool.threads_ i).state.hasLoop = false ↔ (pool.threads_ i).state = .finished := by
  unfold phase at hentered
  cases hstate : (pool.threads_ i).state <;> rw [hstate] at hentered <;>
    simp_all [LoopThreadState.phase, LoopThreadState.hasLoop]

theorem Inv.nullLoop_iff {pool : EventLoopThreadPool} (hpool : pool.Inv)
    {input : LoopThreadInput} : pool.next input = .error .nullLoop ↔
      input = .owner ∧
        ∃ i, pool.owner = .quitting i ∧ (pool.threads_ i).state.hasReset = true := by
  constructor
  · intro hfault
    cases faults_of_next hfault (by decide) with
    | @null i howner hloop =>
        exact ⟨rfl, i, howner, (hpool.loop_of_entered (hpool.entered (.inl howner))).mp hloop⟩
  · rintro ⟨rfl, i, howner, hreset⟩
    have hloop := (hpool.loop_of_entered (hpool.entered (.inl howner))).mpr hreset
    simp [EventLoopThreadPool.next, ownerStep, howner, hloop]

theorem Inv.danglingLoop_iff {pool : EventLoopThreadPool} (hpool : pool.Inv)
    {input : LoopThreadInput} : pool.next input = .error .danglingLoop ↔
      input = .owner ∧ ∃ i, (pool.owner = .calling i ∨ pool.owner = .checking i) ∧
        (pool.threads_ i).state = .finished := by
  constructor
  · intro hfault
    cases faults_of_next hfault (by decide) with
    | @call i howner hloop =>
        have hentered := hpool.entered (.inr (.inl howner))
        exact ⟨rfl, i, .inl howner, (finished_of_entered hentered).mp hloop⟩
    | @check i howner hloop =>
        have hentered := hpool.entered (.inr (.inr (.inl howner)))
        exact ⟨rfl, i, .inr howner, (finished_of_entered hentered).mp hloop⟩
  · rintro ⟨rfl, i, howner | howner, hfinished⟩ <;>
      simp [EventLoopThreadPool.next, ownerStep, howner, hfinished, LoopThreadState.hasLoop]

theorem danglingMutex_iff {pool : EventLoopThreadPool} {input : LoopThreadInput} :
    pool.next input = .error .danglingMutex ↔
      ∃ i, input = .thread i ∧ (pool.threads_ i).state = .unlocking ∧
        pool.owner.hasDestroyed i = true := by
  constructor
  · intro hfault
    cases faults_of_next hfault (by decide) with
    | @unlock i hstate hgone => exact ⟨i, rfl, hstate, hgone⟩
  · rintro ⟨i, rfl, hstate, hgone⟩
    simp [EventLoopThreadPool.next, threadStep, hstate, hgone]

/-! ## Loops that nobody else stops -/

/-- The destructor has joined every thread that it is done with. -/
def AllJoined (pool : EventLoopThreadPool) : Prop :=
  ∀ j < pool.size, pool.owner.hasDestroyed j = true → (pool.threads_ j).state = .finished

theorem AllJoined.set {pool : EventLoopThreadPool} (hpool : pool.AllJoined) {i : ℕ}
    {t : EventLoopThread} {owner : OwnerState}
    (hgone : ∀ j, owner.hasDestroyed j = true → pool.owner.hasDestroyed j = true)
    (ht : (pool.threads_ i).state = .finished → t.state = .finished) :
    ((pool.set i t).moveTo owner).AllJoined := by
  intro j hsize hj
  rw [moveTo_threads_]
  have hfinished := hpool j hsize (hgone j hj)
  by_cases hji : j = i
  · rw [hji] at hfinished ⊢
    rw [set_self]
    exact ht hfinished
  · rw [set_of_ne pool t hji]
    exact hfinished

/-- As long as nobody else stops a loop, the pointer that the destructor compares
is not null. -/
theorem AllJoined.next {pool pool' : EventLoopThreadPool} {input : LoopThreadInput}
    (hpool : pool.Inv) (hquiet : pool.Quiet) (hjoined : pool.AllJoined)
    (hstep : Transition pool input pool') : pool'.AllJoined := by
  cases hstep with
  | start | create | started | semWait | take | wait | wake => exact fun _ _ h => nomatch h
  | destroy =>
      intro j _ hj
      exact absurd (show j < 0 from of_decide_eq_true hj) (Nat.not_lt_zero j)
  | run hruns =>
      refine hjoined.set (fun _ h => h) fun hfinished => ?_
      have hlt := hruns.phase_lt
      rw [hfinished] at hlt
      exact absurd hlt (by decide)
  | publish hstate =>
      unfold notify
      split
      · exact fun _ _ h => nomatch h
      · refine hjoined.set (fun _ h => h) fun hfinished => ?_
        rw [hstate] at hfinished
        cases hfinished
  | otherQuit => exact hjoined.set (fun _ h => h) id
  | found hstate | point hstate | check hstate =>
      exact fun j hsize hj => hjoined j hsize (by rw [hstate]; exact hj)
  | @skip i hstate hlt hloop =>
      have howner := hpool.owner
      unfold OwnerInv at howner
      rw [hstate] at howner
      have hhanded := hpool.handed i (by rw [howner.loops_eq, List.mem_range]; exact hlt)
      have hruns := (hquiet i (by rw [hstate]; exact le_rfl)).2
      unfold phase at hhanded hruns
      have hset := (hpool.shape i).loop_iff.mpr ⟨hhanded, by omega⟩
      rw [hloop] at hset
      cases hset
  | @destroyed i hstate hle =>
      intro j hsize _
      exact hjoined j hsize (by rw [hstate]; exact decide_eq_true (hsize.trans_le hle))
  | quit hstate => exact hjoined.set (fun j hj => by rw [hstate]; exact hj) id
  | @join i hstate hfinished =>
      intro j hsize hj
      rcases Nat.lt_succ_iff_lt_or_eq.mp (of_decide_eq_true hj) with hlt | rfl
      · exact hjoined j hsize (by rw [hstate]; exact decide_eq_true hlt)
      · exact hfinished

theorem AllJoined.run {numThreads : ℕ} {callback : Bool} {inputs : List LoopThreadInput}
    {final : EventLoopThreadPool} {calls} (hinputs : ∀ i, .quit i ∉ inputs)
    (hrun : Execution.run step (initial numThreads callback) inputs = .ok (final, calls)) :
    final.AllJoined := by
  have hstep : ∀ (pool : EventLoopThreadPool) input pool' output,
      (pool.Inv ∧ pool.Quiet ∧ pool.AllJoined) → (∀ i, input ≠ .quit i) →
      step pool input = .ok (pool', output) → pool'.Inv ∧ pool'.Quiet ∧ pool'.AllJoined := by
    rintro pool input pool' output ⟨hpool, hquiet, hjoined⟩ hinput hnext
    have htransition := transition_of_next (step_eq_ok.mp hnext)
    exact ⟨hpool.next htransition, hquiet.next hinput htransition,
      AllJoined.next hpool hquiet hjoined htransition⟩
  have hinitial : (initial numThreads callback).AllJoined := fun _ h => nomatch h
  refine (run_invariant hstep hrun
    ⟨inv_initial _ _, quiet_initial _ _, hinitial⟩ ?_).1.2.2
  intro call hcall i hquit
  refine hinputs i ?_
  rw [← run_inputs hrun, ← hquit]
  exact List.mem_map_of_mem hcall

/-! ## The work of the destructor -/

/-- The destructor has begun. -/
def Finishing (pool : EventLoopThreadPool) : Prop :=
  pool.owner.isEnding = true ∨ pool.owner = .destroyed

theorem endWork_set {pool : EventLoopThreadPool} {i : ℕ} {t : EventLoopThread}
    (howner : pool.owner ≠ .joining i) : (pool.set i t).endWork = pool.endWork := by
  unfold endWork
  rw [set_owner]
  cases hstate : pool.owner with
  | joining j =>
      have hj : j ≠ i := by
        rintro rfl
        exact howner hstate
      simp only [set_of_ne pool t hj]
      rfl
  | idle | creating _ | semWaiting _ | locking _ | waiting _ | started | destroying _
    | quitting _ | calling _ | checking _ | destroyed => rfl

theorem endWork_set_joining {pool : EventLoopThreadPool} {i : ℕ} {t : EventLoopThread}
    (howner : pool.owner = .joining i) :
    (pool.set i t).endWork + (pool.threads_ i).toJoin = pool.endWork + t.toJoin := by
  unfold endWork
  rw [set_owner, howner]
  simp only [set_self]
  change 10 * (pool.size - (i + 1)) + _ + _ + _ = _
  omega

/-- A step of a thread counts when the destructor joins it and it has heard. -/
theorem endWork_run {pool : EventLoopThreadPool} {i : ℕ} {t : EventLoopThread}
    (hruns : (pool.threads_ i).Runs pool.callback_ t) :
    (pool.set i t).endWork + (if pool.endStep (.thread i) then 1 else 0) ≤ pool.endWork := by
  by_cases howner : pool.owner = .joining i
  · have hset := endWork_set_joining howner (t := t)
    have hend : pool.endStep (.thread i) = (pool.threads_ i).heard := by
      simp [endStep, howner]
    rw [hend]
    cases hheard : (pool.threads_ i).heard with
    | true =>
        have hless := (hruns.heard hheard).2
        simp only [if_true]
        omega
    | false =>
        have hall : (pool.threads_ i).toJoin = 6 := by simp [toJoin, hheard]
        have hle := t.toJoin_le
        simp only [Bool.false_eq_true, if_false]
        omega
  · rw [endWork_set howner, if_neg (by simp [endStep, howner])]
    exact le_rfl

theorem Finishing.next {pool pool' : EventLoopThreadPool} {input : LoopThreadInput}
    (hpool : pool.Inv) (hends : pool.Finishing) (hstep : Transition pool input pool') :
    pool'.Finishing ∧
      pool'.endWork + (if pool.endStep input then 1 else 0) ≤ pool.endWork := by
  have hnot : ∀ {owner : OwnerState}, pool.owner = owner → owner.isEnding = false →
      owner ≠ .destroyed → False := by
    intro owner howner hending hdestroyed
    rcases hends with h | h
    · rw [howner, hending] at h
      cases h
    · exact hdestroyed (howner.symm.trans h)
  cases hstep with
  | start howner | create howner | started howner | semWait howner | take howner
    | wait howner | wake howner =>
      exact (hnot howner rfl (by simp)).elim
  | destroy howner =>
      rcases howner with howner | howner <;> exact (hnot howner rfl (by simp)).elim
  | run hruns => exact ⟨hends, endWork_run hruns⟩
  | @publish i hstate =>
      have howner : pool.owner ≠ .joining i := by
        intro howner
        have hentered := hpool.entered (.inr (.inr (.inr howner)))
        simp [phase, hstate, LoopThreadState.phase] at hentered
      have hwaiting : pool.owner ≠ .waiting i := by
        intro hwaiting
        exact hnot hwaiting rfl (by simp)
      unfold notify
      rw [if_neg (by rw [set_owner]; exact hwaiting), endWork_set howner,
        if_neg (by simp [endStep, howner])]
      exact ⟨hends, le_rfl⟩
  | @otherQuit i =>
      refine ⟨hends, ?_⟩
      rw [if_neg (by simp [endStep])]
      by_cases howner : pool.owner = .joining i
      · have hset := endWork_set_joining howner (t := { pool.threads_ i with quit_ := true })
        have hle := toJoin_quit (pool.threads_ i)
        dsimp only at hset hle ⊢
        omega
      · exact (endWork_set howner).le
  | @found i howner hlt =>
      refine ⟨.inl rfl, ?_⟩
      simp only [endWork, endStep, howner, moveTo_owner, OwnerState.isEnding, if_true]
      change 10 * (pool.size - (i + 1)) + 10 + 1 ≤ _
      omega
  | @skip i howner hlt =>
      refine ⟨.inl rfl, ?_⟩
      simp only [endWork, endStep, howner, moveTo_owner, OwnerState.isEnding, if_true]
      change 10 * (pool.size - (i + 1)) + 1 + 1 ≤ _
      omega
  | destroyed howner =>
      refine ⟨.inr rfl, ?_⟩
      simp [endWork, endStep, howner, OwnerState.isEnding]
  | point howner | quit howner =>
      refine ⟨.inl rfl, ?_⟩
      simp only [endWork, endStep, howner, moveTo_owner, OwnerState.isEnding, if_true]
      exact le_rfl
  | @check i howner =>
      refine ⟨.inl rfl, ?_⟩
      have hle := (pool.threads_ i).toJoin_le
      simp only [endWork, endStep, howner, moveTo_owner, moveTo_threads_, OwnerState.isEnding,
        if_true]
      change 10 * (pool.size - (i + 1)) + _ + 1 + 1 ≤ _
      omega
  | @join i howner hfinished =>
      refine ⟨.inl rfl, ?_⟩
      simp only [endWork, endStep, howner, moveTo_owner, OwnerState.isEnding, if_true,
        toJoin, EventLoopThread.heard, hfinished]
      change 10 * (pool.size - (i + 1)) + 1 + 1 ≤ _
      omega

theorem Finishing.run {pool final : EventLoopThreadPool} {inputs : List LoopThreadInput}
    {calls} (hpool : pool.Inv) (hends : pool.Finishing)
    (hrun : Execution.run step pool inputs = .ok (final, calls)) :
    final.Finishing ∧
      final.endWork + calls.countP (fun call => call.pre.endStep call.input) ≤
        pool.endWork := by
  induction inputs generalizing pool calls with
  | nil =>
      obtain ⟨rfl, rfl⟩ := run_nil_eq_ok.mp hrun
      exact ⟨hends, le_rfl⟩
  | cons input inputs ih =>
      obtain ⟨next, _, rest, hstep, hrest, rfl⟩ := run_cons_eq_ok.mp hrun
      have hfirst := transition_of_next (step_eq_ok.mp hstep)
      obtain ⟨hnext, hwork⟩ := hends.next hpool hfirst
      obtain ⟨hfinal, hlater⟩ := ih (hpool.next hfirst) hnext hrest
      refine ⟨hfinal, ?_⟩
      rw [List.countP_cons]
      dsimp only
      omega

theorem end_enabled {pool : EventLoopThreadPool} (hends : pool.owner.isEnding = true)
    (hmissed : ¬ pool.Missed) (hnull : pool.next .owner ≠ .error .nullLoop)
    (hdangling : pool.next .owner ≠ .error .danglingLoop) :
    ∃ input, pool.endStep input = true ∧ Returns (pool.next input) := by
  cases howner : pool.owner with
  | idle | creating _ | semWaiting _ | locking _ | waiting _ | started | destroyed =>
      rw [howner] at hends
      cases hends
  | destroying i =>
      refine ⟨.owner, hends, ?_⟩
      simp only [EventLoopThreadPool.next, ownerStep, howner]
      split
      · split <;> exact returns_ok _
      · exact returns_ok _
  | quitting i | calling i | checking i =>
      refine ⟨.owner, hends, ?_⟩
      simp only [EventLoopThreadPool.next, ownerStep, howner] at hnull hdangling ⊢
      split
      next => exact returns_ok _
      next hloop => simp [hloop] at hnull hdangling
  | joining i =>
      have hheard : (pool.threads_ i).heard = true := by
        by_contra hnot
        exact hmissed ⟨i, .inr howner, Bool.not_eq_true _ ▸ hnot⟩
      by_cases hfinished : (pool.threads_ i).state = .finished
      · refine ⟨.owner, hends, ?_⟩
        simp only [EventLoopThreadPool.next, ownerStep, howner, hfinished, if_true]
        exact returns_ok _
      · refine ⟨.thread i, by simp [endStep, howner, hheard], ?_⟩
        have hthere : pool.owner.hasDestroyed i = false := by simp [howner, OwnerState.hasDestroyed]
        simp only [EventLoopThreadPool.next, threadStep, hthere]
        unfold EventLoopThread.heard at hheard
        split <;> simp_all

/-- The destructor waits for this thread, or is about to. -/
def Awaits (pool : EventLoopThreadPool) (i : ℕ) : Prop :=
  pool.owner = .checking i ∨ pool.owner = .joining i

theorem Awaits.missed_iff {pool : EventLoopThreadPool} {i : ℕ} (howner : pool.Awaits i) :
    pool.Missed ↔ (pool.threads_ i).heard = false := by
  constructor
  · rintro ⟨j, hj, hheard⟩
    have hij : i = j := by
      rcases howner with howner | howner <;> rw [howner] at hj <;> simpa using hj
    rw [hij]
    exact hheard
  · exact fun hheard => ⟨i, howner, hheard⟩

/-- Only another call of `quit` lets the thread leave. -/
theorem Awaits.next {pool pool' : EventLoopThreadPool} {input : LoopThreadInput} {i : ℕ}
    (hpool : pool.Inv) (howner : pool.Awaits i)
    (hheard : (pool.threads_ i).heard = false) (hinput : input ≠ .quit i)
    (hstep : Transition pool input pool') :
    pool'.Awaits i ∧ (pool'.threads_ i).heard = false := by
  have hentered : 5 ≤ pool.phase i := hpool.entered (.inr (.inr howner))
  unfold Awaits at howner
  cases hstep with
  | start h | create h | started h | semWait h | take h | wait h | wake h | found h
    | skip h | destroyed h | point h | quit h =>
      rw [h] at howner
      rcases howner with howner | howner <;> cases howner
  | destroy h =>
      rcases h with h | h <;> rw [h] at howner <;> rcases howner with howner | howner <;>
        cases howner
  | check h =>
      rw [h] at howner
      rcases howner with howner | howner <;> cases howner
      exact ⟨.inr rfl, hheard⟩
  | join h hfinished =>
      rw [h] at howner
      rcases howner with howner | howner <;> cases howner
      simp [EventLoopThread.heard, hfinished] at hheard
  | @run j t hruns =>
      refine ⟨howner, ?_⟩
      by_cases hj : i = j
      · subst hj
        rw [set_self]
        exact hruns.not_heard hentered hheard
      · rw [set_of_ne pool t hj]
        exact hheard
  | @publish j hstate =>
      have hj : i ≠ j := by
        rintro rfl
        simp [phase, hstate, LoopThreadState.phase] at hentered
      have hwaiting : pool.owner ≠ .waiting j := by
        rcases howner with howner | howner <;> rw [howner] <;> simp
      unfold notify
      rw [if_neg (by rw [set_owner]; exact hwaiting), set_of_ne pool _ hj]
      exact ⟨howner, hheard⟩
  | @otherQuit j =>
      have hj : i ≠ j := by
        rintro rfl
        exact hinput rfl
      rw [set_of_ne pool _ hj]
      exact ⟨howner, hheard⟩

theorem Awaits.run {pool final : EventLoopThreadPool} {inputs : List LoopThreadInput} {calls}
    {i : ℕ} (hpool : pool.Inv) (howner : pool.Awaits i)
    (hheard : (pool.threads_ i).heard = false) (hinputs : .quit i ∉ inputs)
    (hrun : Execution.run step pool inputs = .ok (final, calls)) :
    final.Awaits i ∧ (final.threads_ i).heard = false := by
  have hstep : ∀ (pool : EventLoopThreadPool) input pool' output,
      (pool.Inv ∧ pool.Awaits i ∧ (pool.threads_ i).heard = false) →
      input ≠ .quit i → step pool input = .ok (pool', output) →
      pool'.Inv ∧ pool'.Awaits i ∧ (pool'.threads_ i).heard = false := by
    intro pool input pool' output hpool hinput hnext
    have htransition := transition_of_next (step_eq_ok.mp hnext)
    exact ⟨hpool.1.next htransition,
      Awaits.next hpool.1 hpool.2.1 hpool.2.2 hinput htransition⟩
  refine (run_invariant hstep hrun ⟨hpool, howner, hheard⟩ ?_).1.2
  intro call hcall hquit
  refine hinputs ?_
  rw [← run_inputs hrun, ← hquit]
  exact List.mem_map_of_mem hcall

/-- The call of `quit` comes too early for a thread that is about to reset
`quit_`, and for no other. -/
theorem Inv.missed_iff {pool pool' : EventLoopThreadPool} (hpool : pool.Inv) {i : ℕ}
    (howner : pool.owner = .calling i) (hstep : Transition pool .owner pool') :
    pool'.Missed ↔ (pool.threads_ i).state = .entering := by
  have hheard := heard_quit (hpool.entered (.inr (.inl howner)))
  cases hstep with
  | create h | started h | semWait h | take h | wait h | found h | skip h | destroyed h
    | point h | check h | join h =>
      rw [h] at howner
      cases howner
  | @quit j h =>
      rw [h] at howner
      cases howner
      have hawaits : ((pool.set i { pool.threads_ i with quit_ := true }).moveTo
          (.checking i)).Awaits i := .inl rfl
      rw [hawaits.missed_iff, moveTo_threads_, set_self, ← Bool.not_eq_true, hheard]
      exact not_not

/-! ## The promise of the destructor -/

/-- For the state `final` after the inputs. -/
structure EndsLoops (inputs : List LoopThreadInput) (final : EventLoopThreadPool) : Prop where
  /-- When the destructor is done, every loop has ended, -/
  ended : final.owner = .destroyed → ∀ i < final.size,
    (final.threads_ i).state.hasReset = true
  /-- and every thread too, unless somebody else has stopped a loop. -/
  joined : (∀ i, .quit i ∉ inputs) → final.owner = .destroyed →
    ∀ i < final.size, (final.threads_ i).state = .finished
  /-- The pointer of the call is null when the thread has reset it behind the
  test, -/
  null : ∀ input, final.next input = .error .nullLoop ↔ input = .owner ∧
    ∃ i, final.owner = .quitting i ∧ (final.threads_ i).state.hasReset = true
  /-- the loop is gone when its thread has ended during the call, -/
  dangling : ∀ input, final.next input = .error .danglingLoop ↔ input = .owner ∧
    ∃ i, (final.owner = .calling i ∨ final.owner = .checking i) ∧
      (final.threads_ i).state = .finished
  /-- and the mutex is gone when the thread still holds it. -/
  unlocked : ∀ input, final.next input = .error .danglingMutex ↔
    ∃ i, input = .thread i ∧ (final.threads_ i).state = .unlocking ∧
      final.owner.hasDestroyed i = true
  /-- Without somebody else only the thread that has seen `quit_` can be too
  early for the rest of the call. -/
  safe : (∀ i, .quit i ∉ inputs) → ∀ input stop, final.next input = .error stop →
    stop = .notEnabled ∨ stop = .danglingLoop ∧ ∃ i, final.owner = .checking i
  /-- The destructor ends after a bounded number of steps, unless it waits for a
  thread that has missed the call. -/
  ends : final.owner.isEnding = true →
    ∀ more last calls, run step final more = .ok (last, calls) →
      calls.countP (fun call => call.pre.endStep call.input) ≤ final.endWork ∧
        (last.owner = .destroyed ∨ last.Missed ∨ last.next .owner = .error .nullLoop ∨
          last.next .owner = .error .danglingLoop ∨
          ∃ input, last.endStep input = true ∧ Returns (last.next input))
  /-- A call of `quit` is missed exactly when the thread has not yet reset
  `quit_`; -/
  missed : ∀ i pool, final.owner = .calling i → final.next .owner = .ok pool →
    (pool.Missed ↔ (final.threads_ i).state = .entering)
  /-- and from then on the destructor waits, as long as nobody else calls it. -/
  waits : ∀ i, final.Awaits i → final.Missed →
    ∀ more last calls, .quit i ∉ more → run step final more = .ok (last, calls) →
      last.Awaits i ∧ last.Missed

theorem checking_of_fault {numThreads : ℕ} {callback : Bool} {inputs : List LoopThreadInput}
    {final : EventLoopThreadPool} {calls} (hinputs : ∀ i, .quit i ∉ inputs)
    (hrun : run step (initial numThreads callback) inputs = .ok (final, calls))
    {input : LoopThreadInput} {stop : LoopThreadStop} (hfault : final.next input = .error stop)
    (hstop : stop ≠ .notEnabled) :
    stop = .danglingLoop ∧ ∃ i, final.owner = .checking i := by
  have hfinal := (inv_initial numThreads callback).run hrun
  have hquiet := (quiet_initial numThreads callback).run hinputs hrun
  cases faults_of_next hfault hstop with
  | @null i howner hloop =>
      have hreset := (hfinal.loop_of_entered (hfinal.entered (.inl howner))).mp hloop
      have hphase := (hquiet i (by rw [howner]; exact le_rfl)).2
      have hlate := LoopThreadState.hasReset_iff.mp hreset
      unfold phase at hphase
      omega
  | @call i howner hloop =>
      have hfinished :=
        (finished_of_entered (hfinal.entered (.inr (.inl howner)))).mp hloop
      have hphase := (hquiet i (by rw [howner]; exact le_rfl)).2
      simp [phase, hfinished, LoopThreadState.phase] at hphase
  | @check i howner => exact ⟨rfl, i, howner⟩
  | @unlock i hstate hgone =>
      have hsize : i < final.size :=
        hfinal.present (by simp [phase, hstate, LoopThreadState.phase])
      have hfinished := AllJoined.run hinputs hrun i hsize hgone
      rw [hstate] at hfinished
      cases hfinished

theorem destroy_endsLoops {numThreads : ℕ} {callback : Bool} {inputs : List LoopThreadInput}
    {final : EventLoopThreadPool} {calls}
    (hrun : run step (initial numThreads callback) inputs = .ok (final, calls)) :
    EndsLoops inputs final := by
  have hfinal := (inv_initial numThreads callback).run hrun
  constructor
  case ended =>
    intro hdestroyed i hi
    have howner := hfinal.owner
    unfold OwnerInv at howner
    rw [hdestroyed] at howner
    exact LoopThreadState.hasReset_iff.mpr (howner.left i hi)
  case joined =>
    intro hinputs hdestroyed i hi
    exact AllJoined.run hinputs hrun i hi (by rw [hdestroyed]; rfl)
  case null => exact fun _ => hfinal.nullLoop_iff
  case dangling => exact fun _ => hfinal.danglingLoop_iff
  case unlocked => exact fun _ => danglingMutex_iff
  case safe =>
    intro hinputs input stop hfault
    by_cases hstop : stop = .notEnabled
    · exact .inl hstop
    · exact .inr (checking_of_fault hinputs hrun hfault hstop)
  case ends =>
    intro hends more last calls hmore
    obtain ⟨hlast, hwork⟩ := Finishing.run hfinal (.inl hends) hmore
    refine ⟨(Nat.le_add_left _ _).trans hwork, ?_⟩
    rcases hlast with hgoes | hdestroyed
    · by_cases hmissed : last.Missed
      · exact .inr (.inl hmissed)
      by_cases hnull : last.next .owner = .error .nullLoop
      · exact .inr (.inr (.inl hnull))
      by_cases hdangling : last.next .owner = .error .danglingLoop
      · exact .inr (.inr (.inr (.inl hdangling)))
      · exact .inr (.inr (.inr (.inr (end_enabled hgoes hmissed hnull hdangling))))
    · exact .inl hdestroyed
  case missed =>
    exact fun _ _ howner hnext => hfinal.missed_iff howner (transition_of_next hnext)
  case waits =>
    intro i howner hmissed more last calls hinputs hmore
    obtain ⟨hlast, hheard⟩ :=
      Awaits.run hfinal howner (howner.missed_iff.mp hmissed) hinputs hmore
    exact ⟨hlast, hlast.missed_iff.mpr hheard⟩

/-- The destructor comes before the thread is in its loop. -/
def quitTooEarly : List LoopThreadInput :=
  [.start, .owner, .thread 0, .thread 0, .owner, .thread 0, .owner, .owner, .destroy, .owner,
    .owner, .owner, .owner, .thread 0, .thread 0]

theorem destroy_endsLoops_quitTooEarly :
    ∃ final calls, run step (initial 1 false) quitTooEarly = .ok (final, calls) ∧
      final.owner = .joining 0 ∧ final.Missed ∧ EndsLoops quitTooEarly final := by
  have hrun : ∃ final calls, run step (initial 1 false) quitTooEarly = .ok (final, calls) ∧
      final.owner = .joining 0 ∧ (final.threads_ 0).heard = false := ⟨_, _, rfl, rfl, rfl⟩
  obtain ⟨final, calls, hrun, howner, hheard⟩ := hrun
  exact ⟨final, calls, hrun, howner, ⟨0, .inr howner, hheard⟩, destroy_endsLoops hrun⟩

/-- Somebody else stops the loop, and the destructor comes between the last lock
of its thread and the unlock. -/
def quitElsewhere : List LoopThreadInput :=
  [.start, .owner, .thread 0, .thread 0, .owner, .thread 0, .owner, .owner, .thread 0, .quit 0,
    .thread 0, .thread 0, .destroy, .owner, .owner]

example : ∃ final calls, run step (initial 1 false) quitElsewhere = .ok (final, calls) ∧
    final.owner = .destroyed ∧ final.next (.thread 0) = .error .danglingMutex :=
  ⟨_, _, rfl, rfl, rfl⟩

end EventLoopThreadPool

end MyFileServer
