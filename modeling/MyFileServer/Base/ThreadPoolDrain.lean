import MyFileServer.Base.ThreadPool

/-!
# What the thread pool promises

The queue hands tasks out in the order in which they came, the worker that
takes a task calls it once, and no worker leaves while there are tasks.  When
`stop` has been called after `start`, every step of the pool's own threads
lowers `work`, and one of them is possible until all workers have left.
-/

namespace MyFileServer

open Execution

namespace ThreadPool

variable {n : ℕ} {α : Type}

structure Inv (pool : ThreadPool n α) : Prop where
  fifo : pool.taken.map Prod.snd ++ pool.queue_ = pool.added
  absent : ∀ worker, pool.workers worker = .absent → pool.threads_ ≤ worker.val
  fresh : ∀ worker : Fin n, pool.threads_ ≤ worker.val → pool.workers worker = .absent
  begun : pool.started = false → ∀ worker, pool.workers worker = .absent
  awake : pool.running_ = false → ∀ worker, pool.workers worker ≠ .waiting
  held : ∀ worker k task, pool.workers worker = .holding k task →
    pool.taken[k]? = some (worker, task) ∧ ∀ call ∈ pool.called, call.2 ≠ k
  called_taken : ∀ call ∈ pool.called, ∃ a, pool.taken[call.2]? = some (call.1, some a)
  called_nodup : (pool.called.map Prod.snd).Nodup
  pending : ∀ k worker a, pool.taken[k]? = some (worker, some a) →
    (worker, k) ∈ pool.called ∨ pool.workers worker = .holding k (some a)

theorem inv_initial : ({} : ThreadPool n α).Inv where
  fifo := rfl
  absent := fun _ _ => Nat.zero_le _
  fresh := fun _ _ => rfl
  begun := fun _ _ => rfl
  awake := fun _ _ h => nomatch h
  held := fun _ _ _ h => nomatch h
  called_taken := fun _ h => nomatch h
  called_nodup := List.nodup_nil
  pending := fun _ _ _ h => nomatch h

section Step

variable {pool pool' : ThreadPool n α} {input : WorkInput n α}

theorem Inv.pushBack (hpool : pool.Inv) (task : Task α) : (pool.pushBack task).Inv :=
  { hpool with
    fifo := by
      change pool.taken.map Prod.snd ++ (pool.queue_ ++ [task]) = pool.added ++ [task]
      rw [← List.append_assoc, hpool.fifo] }

/-- The part of the invariant that the tasks do not enter. -/
structure Staffed (pool : ThreadPool n α) : Prop where
  absent : ∀ worker, pool.workers worker = .absent → pool.threads_ ≤ worker.val
  fresh : ∀ worker : Fin n, pool.threads_ ≤ worker.val → pool.workers worker = .absent
  begun : pool.started = false → ∀ worker, pool.workers worker = .absent
  awake : pool.running_ = false → ∀ worker, pool.workers worker ≠ .waiting

theorem Inv.staffed (hpool : pool.Inv) : pool.Staffed :=
  ⟨hpool.absent, hpool.fresh, hpool.begun, hpool.awake⟩

theorem Staffed.moveTo (hpool : pool.Staffed) {worker : Fin n} {state : WorkerState α}
    (hpresent : pool.workers worker ≠ .absent) (hstays : state ≠ .absent)
    (hwaits : state = .waiting → pool.running_ = true) :
    (pool.moveTo worker state).Staffed where
  absent := fun other hother =>
    hpool.absent other (of_moveTo (Ne.symm hstays) hother).2
  fresh := by
    intro other hother
    have habsent := hpool.fresh other hother
    have hne : other ≠ worker := by
      rintro rfl
      exact hpresent habsent
    rw [moveTo_of_ne hne]
    exact habsent
  begun := fun hstarted => absurd (hpool.begun hstarted worker) hpresent
  awake := by
    intro hrunning other hother
    by_cases hstate : state = .waiting
    · have hon := hwaits hstate
      rw [moveTo_running_, hon] at hrunning
      cases hrunning
    · exact hpool.awake hrunning other (of_moveTo (Ne.symm hstate) hother).2

/-- A worker without a task to call goes to a state without a task. -/
theorem Inv.moveTo (hpool : pool.Inv) {worker : Fin n} {state : WorkerState α}
    (hpresent : pool.workers worker ≠ .absent)
    (hfree : ∀ k a, pool.workers worker ≠ .holding k (some a))
    (hstays : state ≠ .absent) (hwaits : state = .waiting → pool.running_ = true)
    (hnone : ∀ k task, state ≠ .holding k task) : (pool.moveTo worker state).Inv := by
  have hstaffed := hpool.staffed.moveTo hpresent hstays hwaits
  constructor
  case fifo => exact hpool.fifo
  case absent => exact hstaffed.absent
  case fresh => exact hstaffed.fresh
  case begun => exact hstaffed.begun
  case awake => exact hstaffed.awake
  case held =>
    intro other k task hother
    exact hpool.held other k task (of_moveTo (Ne.symm (hnone k task)) hother).2
  case called_taken => exact hpool.called_taken
  case called_nodup => exact hpool.called_nodup
  case pending =>
    intro k other a htaken
    rcases hpool.pending k other a htaken with hcalled | hholds
    · exact .inl hcalled
    · have hsame : other ≠ worker := by
        rintro rfl
        exact hfree k a hholds
      rw [moveTo_of_ne hsame]
      exact .inr hholds

theorem Resumes.moves {worker : Fin n} (h : pool.Resumes input worker) :
    pool.workers worker ≠ .absent ∧ ∀ k a, pool.workers worker ≠ .holding k (some a) := by
  cases h with
  | initialised hstate | wake hstate | skip hstate | finish hstate => simp [hstate]

theorem Inv.spawnNext (hpool : pool.Inv) (h : pool.threads_ < n)
    (hstarted : pool.started = true) : (pool.spawnNext h).Inv := by
  have hnew := hpool.fresh ⟨pool.threads_, h⟩ le_rfl
  have hother : ∀ worker : Fin n, worker ≠ ⟨pool.threads_, h⟩ →
      (pool.spawnNext h).workers worker = pool.workers worker :=
    fun _ hne => moveTo_of_ne hne
  have hsame : ∀ worker : Fin n, ∀ state, state ≠ .starting →
      (pool.spawnNext h).workers worker = state →
      worker ≠ ⟨pool.threads_, h⟩ ∧ pool.workers worker = state :=
    fun _ _ hstate hworker => of_moveTo hstate hworker
  constructor
  case fifo => exact hpool.fifo
  case absent =>
    intro worker hworker
    obtain ⟨hne, habsent⟩ := hsame worker _ (by simp) hworker
    have hold := hpool.absent worker habsent
    have hval : worker.val ≠ pool.threads_ := fun heq => hne (Fin.ext heq)
    change pool.threads_ + 1 ≤ worker.val
    omega
  case fresh =>
    intro worker hworker
    change pool.threads_ + 1 ≤ worker.val at hworker
    have hne : worker ≠ ⟨pool.threads_, h⟩ := by
      rintro rfl
      simp at hworker
    rw [hother worker hne]
    exact hpool.fresh worker (by omega)
  case begun =>
    intro hnot
    change pool.started = false at hnot
    rw [hstarted] at hnot
    cases hnot
  case awake =>
    intro hrunning worker hworker
    exact hpool.awake hrunning worker (hsame worker _ (by simp) hworker).2
  case held =>
    intro worker k task hworker
    exact hpool.held worker k task (hsame worker _ (by simp) hworker).2
  case called_taken => exact hpool.called_taken
  case called_nodup => exact hpool.called_nodup
  case pending =>
    intro k worker a htaken
    rcases hpool.pending k worker a htaken with hcalled | hholds
    · exact .inl hcalled
    · have hne : worker ≠ ⟨pool.threads_, h⟩ := by
        rintro rfl
        rw [hnew] at hholds
        cases hholds
      rw [hother worker hne]
      exact .inr hholds

theorem notifyAll_cases (pool : ThreadPool n α) (worker : Fin n) :
    (pool.workers worker = .waiting ∧ pool.notifyAll.workers worker = .ready) ∨
      (pool.workers worker ≠ .waiting ∧
        pool.notifyAll.workers worker = pool.workers worker) := by
  by_cases hwaiting : pool.workers worker = .waiting
  · exact .inl ⟨hwaiting, if_pos (isWaiting_iff.mpr hwaiting)⟩
  · exact .inr ⟨hwaiting, if_neg (mt isWaiting_iff.mp hwaiting)⟩

theorem notifyAll_eq {worker : Fin n} {state : WorkerState α} (hready : state ≠ .ready)
    (hwaiting : state ≠ .waiting) :
    pool.notifyAll.workers worker = state ↔ pool.workers worker = state := by
  rcases notifyAll_cases pool worker with ⟨hold, hnew⟩ | ⟨_, hnew⟩
  · rw [hnew, hold]
    exact iff_of_false (Ne.symm hready) (Ne.symm hwaiting)
  · rw [hnew]

theorem Inv.stopAll (hpool : pool.Inv) :
    ({ pool.notifyAll with running_ := false } : ThreadPool n α).Inv where
  fifo := hpool.fifo
  absent := fun worker hworker =>
    hpool.absent worker ((notifyAll_eq (by simp) (by simp)).mp hworker)
  fresh := fun worker hworker =>
    (notifyAll_eq (by simp) (by simp)).mpr (hpool.fresh worker hworker)
  begun := fun hstarted worker =>
    (notifyAll_eq (by simp) (by simp)).mpr (hpool.begun hstarted worker)
  awake := by
    intro _ worker hworker
    change pool.notifyAll.workers worker = .waiting at hworker
    rcases notifyAll_cases pool worker with ⟨_, hnew⟩ | ⟨hold, hnew⟩
    · rw [hnew] at hworker
      cases hworker
    · rw [hnew] at hworker
      exact hold hworker
  held := fun worker k task hworker =>
    hpool.held worker k task ((notifyAll_eq (by simp) (by simp)).mp hworker)
  called_taken := hpool.called_taken
  called_nodup := hpool.called_nodup
  pending := by
    intro k worker a htaken
    exact (hpool.pending k worker a htaken).imp_right
      (notifyAll_eq (by simp) (by simp)).mpr

/-- The number of the task is the length of the record before it. -/
theorem Inv.take (hpool : pool.Inv) {worker : Fin n} {task : Task α}
    {rest : List (Task α)} (hready : pool.workers worker = .ready)
    (hqueue : pool.queue_ = task :: rest) :
    ({ pool.moveTo worker (.holding pool.taken.length task) with
        queue_ := rest
        taken := pool.taken ++ [(worker, task)] } : ThreadPool n α).Inv := by
  have hnumber : ∀ call ∈ pool.called, call.2 < pool.taken.length := by
    intro call hcall
    obtain ⟨a, htaken⟩ := hpool.called_taken call hcall
    exact (List.getElem?_eq_some_iff.mp htaken).1
  have hkeeps : ∀ {k : ℕ} {entry : Fin n × Task α}, pool.taken[k]? = some entry →
      (pool.taken ++ [(worker, task)])[k]? = some entry := by
    intro k entry hentry
    rw [List.getElem?_append_left (List.getElem?_eq_some_iff.mp hentry).1]
    exact hentry
  have hother : ∀ other : Fin n, other ≠ worker →
      (pool.moveTo worker (.holding pool.taken.length task)).workers other =
        pool.workers other := fun _ hne => moveTo_of_ne hne
  have hself := moveTo_self pool worker (.holding pool.taken.length task)
  have hpresent : pool.workers worker ≠ .absent := ne_of_eq_of_ne hready (by simp)
  have hstaffed : (pool.moveTo worker (.holding pool.taken.length task)).Staffed :=
    hpool.staffed.moveTo hpresent (by simp) (by simp)
  constructor
  case fifo =>
    change (pool.taken ++ [(worker, task)]).map Prod.snd ++ rest = pool.added
    rw [List.map_append, List.append_assoc, ← hpool.fifo, hqueue]
    rfl
  case absent => exact hstaffed.absent
  case fresh => exact hstaffed.fresh
  case begun => exact hstaffed.begun
  case awake => exact hstaffed.awake
  case held =>
    intro other k held hworker
    by_cases hne : other = worker
    · subst hne
      have hstate := hself.symm.trans hworker
      cases hstate
      exact ⟨List.getElem?_concat_length, fun call hcall => (hnumber call hcall).ne⟩
    · have hold := hpool.held other k held ((hother other hne).symm.trans hworker)
      exact ⟨hkeeps hold.1, hold.2⟩
  case called_taken =>
    intro call hcall
    obtain ⟨a, htaken⟩ := hpool.called_taken call hcall
    exact ⟨a, hkeeps htaken⟩
  case called_nodup => exact hpool.called_nodup
  case pending =>
    intro k other a htaken
    rcases Nat.lt_or_ge k pool.taken.length with hold | hnew
    · change (pool.taken ++ [(worker, task)])[k]? = _ at htaken
      rw [List.getElem?_append_left hold] at htaken
      rcases hpool.pending k other a htaken with hcalled | hholds
      · exact .inl hcalled
      · have hne : other ≠ worker := by
          rintro rfl
          rw [hready] at hholds
          cases hholds
        exact .inr ((hother other hne).trans hholds)
    · change (pool.taken ++ [(worker, task)])[k]? = _ at htaken
      rw [List.getElem?_append_right hnew] at htaken
      obtain ⟨hk, hentry⟩ := List.getElem?_eq_some_iff.mp htaken
      have hlast : k = pool.taken.length := by
        rw [List.length_singleton] at hk
        omega
      subst hlast
      simp only [List.getElem_singleton] at hentry
      cases hentry
      exact .inr hself

theorem Inv.call (hpool : pool.Inv) {worker : Fin n} {k : ℕ} {a : α}
    (hholds : pool.workers worker = .holding k (some a)) :
    ({ pool.moveTo worker (.running k) with
        called := pool.called ++ [(worker, k)] } : ThreadPool n α).Inv := by
  have hown := hpool.held worker k _ hholds
  have hother : ∀ other : Fin n, other ≠ worker →
      (pool.moveTo worker (.running k)).workers other = pool.workers other :=
    fun _ hne => moveTo_of_ne hne
  have hself := moveTo_self pool worker (.running k)
  have hpresent : pool.workers worker ≠ .absent := ne_of_eq_of_ne hholds (by simp)
  have hstaffed : (pool.moveTo worker (.running k)).Staffed :=
    hpool.staffed.moveTo hpresent (by simp) (by simp)
  constructor
  case fifo => exact hpool.fifo
  case absent => exact hstaffed.absent
  case fresh => exact hstaffed.fresh
  case begun => exact hstaffed.begun
  case awake => exact hstaffed.awake
  case held =>
    intro other k' task hworker
    obtain ⟨hne, hold⟩ := of_moveTo (by simp) hworker
    have hheld := hpool.held other k' task hold
    refine ⟨hheld.1, ?_⟩
    intro call hcall
    rcases List.mem_append.mp hcall with hcall | hcall
    · exact hheld.2 call hcall
    · rw [List.mem_singleton.mp hcall]
      rintro rfl
      -- two workers would hold the task of one number
      rw [hown.1] at hheld
      exact hne (Prod.mk.inj (Option.some.inj hheld.1)).1.symm
  case called_taken =>
    intro call hcall
    rcases List.mem_append.mp hcall with hcall | hcall
    · exact hpool.called_taken call hcall
    · rw [List.mem_singleton.mp hcall]
      exact ⟨a, hown.1⟩
  case called_nodup =>
    change ((pool.called ++ [(worker, k)]).map Prod.snd).Nodup
    rw [List.map_append]
    refine List.Nodup.append hpool.called_nodup (List.nodup_singleton _) ?_
    intro number hnumber hlast
    obtain ⟨call, hcall, rfl⟩ := List.mem_map.mp hnumber
    exact hown.2 call hcall (List.mem_singleton.mp hlast)
  case pending =>
    intro k' other b htaken
    rcases hpool.pending k' other b htaken with hcalled | hold
    · exact .inl (List.mem_append_left _ hcalled)
    · by_cases hne : other = worker
      · rw [hne, hholds] at hold
        cases hold
        rw [hne]
        exact .inl (List.mem_append_right _ (List.mem_singleton.mpr rfl))
      · exact .inr ((hother other hne).trans hold)

theorem Inv.next (hpool : pool.Inv) (hstep : Transition pool input pool') :
    pool'.Inv := by
  cases hstep with
  | add => exact hpool.pushBack _
  | addAndWake hwaiting =>
      exact (hpool.pushBack _).moveTo (ne_of_eq_of_ne hwaiting (by simp))
        (fun k a => ne_of_eq_of_ne hwaiting (by simp)) (by simp) (by simp) (by simp)
  | start hstarted =>
      exact { hpool with
        begun := fun h => nomatch h
        awake := fun h => nomatch h }
  | spawn h hstarted => exact hpool.spawnNext h hstarted
  | stop => exact hpool.stopAll
  | resume hresumes =>
      exact hpool.moveTo hresumes.moves.1 hresumes.moves.2 (by simp) (by simp) (by simp)
  | sleep hready _ hrunning =>
      exact hpool.moveTo (by simp [hready]) (by simp [hready]) (by simp)
        (fun _ => hrunning) (by simp)
  | leave hready =>
      exact hpool.moveTo (by simp [hready]) (by simp [hready]) (by simp) (by simp) (by simp)
  | take hready hqueue => exact hpool.take hready hqueue
  | call hholds => exact hpool.call hholds

/-- A worker leaves its loop only here. -/
theorem Transition.left (hstep : Transition pool input pool') {worker : Fin n}
    (hbefore : pool.workers worker ≠ .exited)
    (hafter : pool'.workers worker = .exited) :
    pool.workers worker = .ready ∧ pool.queue_ = [] ∧ pool.running_ = false := by
  cases hstep with
  | add => exact absurd hafter hbefore
  | @addAndWake task other =>
      have hmoved : ((pool.pushBack task).moveTo other .ready).workers worker = .exited :=
        hafter
      exact absurd (of_moveTo (by simp) hmoved).2 hbefore
  | start => exact absurd hafter hbefore
  | spawn h =>
      have hmoved : (pool.moveTo ⟨pool.threads_, h⟩ .starting).workers worker = .exited :=
        hafter
      exact absurd (of_moveTo (by simp) hmoved).2 hbefore
  | stop => exact absurd ((notifyAll_eq (by simp) (by simp)).mp hafter) hbefore
  | resume => exact absurd (of_moveTo (by simp) hafter).2 hbefore
  | sleep => exact absurd (of_moveTo (by simp) hafter).2 hbefore
  | @leave other hready hqueue hrunning =>
      have hsame : worker = other := by
        by_contra hne
        exact hbefore ((moveTo_of_ne hne).symm.trans hafter)
      rw [hsame]
      exact ⟨hready, hqueue, hrunning⟩
  | @take other task rest =>
      have hmoved : (pool.moveTo other (.holding pool.taken.length task)).workers worker =
          .exited := hafter
      exact absurd (of_moveTo (by simp) hmoved).2 hbefore
  | @call other k =>
      have hmoved : (pool.moveTo other (.running k)).workers worker = .exited := hafter
      exact absurd (of_moveTo (by simp) hmoved).2 hbefore

/-! ## Runs -/

/-- The tasks that were dequeued, in their order. -/
def takenTasks (pool : ThreadPool n α) : List (Task α) :=
  pool.taken.map Prod.snd

theorem Transition.grows (hstep : Transition pool input pool') :
    pool.added <+: pool'.added ∧ pool.takenTasks <+: pool'.takenTasks := by
  cases hstep with
  | add => exact ⟨List.prefix_append _ _, List.prefix_refl _⟩
  | addAndWake => exact ⟨List.prefix_append _ _, List.prefix_refl _⟩
  | take =>
      refine ⟨List.prefix_refl _, ?_⟩
      unfold takenTasks
      rw [List.map_append]
      exact List.prefix_append _ _
  | start | spawn | stop | resume | sleep | leave | call =>
      exact ⟨List.prefix_refl _, List.prefix_refl _⟩

theorem transition_of_step {output : Unit} (hstep : step pool input = .ok (pool', output)) :
    Transition pool input pool' :=
  transition_of_next (step_eq_ok.mp hstep)

end Step

theorem Inv.run {pool final : ThreadPool n α} {inputs : List (WorkInput n α)} {calls}
    (hpool : pool.Inv) (hrun : run step pool inputs = .ok (final, calls)) : final.Inv := by
  have hstep : ∀ (pool : ThreadPool n α) input next output, pool.Inv → True →
      step pool input = .ok (next, output) → next.Inv :=
    fun _ _ _ _ hinv _ hnext => hinv.next (transition_of_step hnext)
  exact (run_invariant hstep hrun hpool fun _ _ => trivial).1

theorem grows_run {pool final : ThreadPool n α} {inputs : List (WorkInput n α)} {calls}
    (hrun : run step pool inputs = .ok (final, calls)) :
    pool.added <+: final.added ∧ pool.takenTasks <+: final.takenTasks := by
  induction inputs generalizing pool calls with
  | nil =>
      obtain ⟨rfl, _⟩ := run_nil_eq_ok.mp hrun
      exact ⟨List.prefix_refl _, List.prefix_refl _⟩
  | cons input inputs ih =>
      obtain ⟨next, _, _, hstep, hrest, _⟩ := run_cons_eq_ok.mp hrun
      have hfirst := (transition_of_step hstep).grows
      have hlater := ih hrest
      exact ⟨hfirst.1.trans hlater.1, hfirst.2.trans hlater.2⟩

/-- When a worker that is still there has left, all tasks of before have been
dequeued. -/
theorem Inv.taken_of_left {pool final : ThreadPool n α} {inputs : List (WorkInput n α)}
    {calls} (hpool : pool.Inv) (hrun : Execution.run step pool inputs = .ok (final, calls))
    {worker : Fin n} (hbefore : pool.workers worker ≠ .exited)
    (hafter : final.workers worker = .exited) : pool.added <+: final.takenTasks := by
  induction inputs generalizing pool calls with
  | nil =>
      obtain ⟨rfl, _⟩ := run_nil_eq_ok.mp hrun
      exact absurd hafter hbefore
  | cons input inputs ih =>
      obtain ⟨next, _, _, hstep, hrest, _⟩ := run_cons_eq_ok.mp hrun
      have hfirst := transition_of_step hstep
      by_cases hleft : next.workers worker = .exited
      · have hqueue := (hfirst.left hbefore hleft).2.1
        have hall : pool.added = pool.takenTasks := by
          rw [← hpool.fifo, hqueue, List.append_nil]
          rfl
        rw [hall]
        exact hfirst.grows.2.trans (grows_run hrest).2
      · exact hfirst.grows.1.trans (ih (hpool.next hfirst) hrest hleft)

/-- Without a call of `stop` no worker leaves. -/
structure NeverStopped (pool : ThreadPool n α) : Prop where
  running : pool.started = true → pool.running_ = true
  present : ∀ worker, pool.workers worker ≠ .exited

theorem neverStopped_initial : ({} : ThreadPool n α).NeverStopped := by
  constructor
  · intro hstarted
    cases hstarted
  · intro worker hexited
    cases hexited

theorem NeverStopped.next {pool pool' : ThreadPool n α} {input : WorkInput n α}
    (hpool : pool.NeverStopped) (hinv : pool.Inv) (hstep : Transition pool input pool')
    (hinput : input ≠ .stop) : pool'.NeverStopped := by
  have hkeeps : pool.started = pool'.started ∧ pool.running_ = pool'.running_ ∨
      pool'.running_ = true := by
    cases hstep with
    | stop => exact absurd rfl hinput
    | start => exact .inr rfl
    | add | addAndWake | spawn | resume | sleep | leave | take | call => exact .inl ⟨rfl, rfl⟩
  constructor
  · intro hstarted
    rcases hkeeps with ⟨hsame, hrunning⟩ | hrunning
    · rw [← hrunning]
      exact hpool.running (hsame.trans hstarted)
    · exact hrunning
  · intro worker hexited
    obtain ⟨hready, _, hstopped⟩ := hstep.left (hpool.present worker) hexited
    cases hstarted : pool.started with
    | true =>
        rw [hpool.running hstarted] at hstopped
        cases hstopped
    | false =>
        rw [hinv.begun hstarted worker] at hready
        cases hready

theorem neverStopped_run {pool final : ThreadPool n α} {inputs : List (WorkInput n α)}
    {calls} (hpool : pool.NeverStopped) (hinv : pool.Inv)
    (hrun : run step pool inputs = .ok (final, calls)) (hinputs : .stop ∉ inputs) :
    final.NeverStopped := by
  induction inputs generalizing pool calls with
  | nil =>
      obtain ⟨rfl, _⟩ := run_nil_eq_ok.mp hrun
      exact hpool
  | cons input inputs ih =>
      obtain ⟨next, _, _, hstep, hrest, _⟩ := run_cons_eq_ok.mp hrun
      have hfirst := transition_of_step hstep
      rw [List.mem_cons, not_or] at hinputs
      exact ih (hpool.next hinv hfirst (Ne.symm hinputs.1)) (hinv.next hfirst) hrest
        hinputs.2

/-! ## Each task once -/

/-- The only call of the task with the number `k` is one by this worker. -/
def RunsOnce (pool : ThreadPool n α) (k : ℕ) (worker : Fin n) : Prop :=
  pool.called.filter (fun call => call.2 = k) = [(worker, k)]

theorem runsOnce_of_mem {pool : ThreadPool n α} (hpool : pool.Inv) {k : ℕ}
    {worker : Fin n} (hcalled : (worker, k) ∈ pool.called) : pool.RunsOnce k worker := by
  have hnodup := hpool.called_nodup
  unfold RunsOnce
  generalize pool.called = called at hcalled hnodup
  induction called with
  | nil => cases hcalled
  | cons call called ih =>
      rw [List.map_cons, List.nodup_cons] at hnodup
      by_cases hk : call.2 = k
      · have hnone : called.filter (fun call => call.2 = k) = [] := by
          rw [List.filter_eq_nil_iff]
          intro other hother
          simp only [decide_eq_true_eq]
          rintro hsame
          exact hnodup.1 (List.mem_map.mpr ⟨other, hother, hsame.trans hk.symm⟩)
        rw [List.filter_cons_of_pos (by simpa using hk), hnone]
        rcases List.mem_cons.mp hcalled with heq | hlater
        · rw [heq]
        · exact absurd (List.mem_map.mpr ⟨_, hlater, hk.symm⟩) hnodup.1
      · rw [List.filter_cons_of_neg (by simpa using hk)]
        rcases List.mem_cons.mp hcalled with heq | hlater
        · rw [← heq] at hk
          exact absurd rfl hk
        · exact ih hlater hnodup.2

def AllExited (pool : ThreadPool n α) : Prop :=
  ∀ worker, pool.workers worker = .exited

/-! ## The end after `stop` -/

/-- A step of `start` or of a worker. -/
def isOwn : WorkInput n α → Bool
  | .spawn | .initialised _ | .lock _ | .wake _ | .call _ | .finish _ => true
  | .add _ _ | .start | .stop => false

def isAdd : WorkInput n α → Bool
  | .add _ _ => true
  | _ => false

/-- The steps that a worker still has before it finds the queue empty. -/
def distance : WorkerState α → ℕ
  | .absent => 3
  | .starting => 2
  | .ready => 1
  | .waiting => 0
  | .holding _ _ => 3
  | .running _ => 2
  | .exited => 0

def work (pool : ThreadPool n α) : ℕ :=
  3 * pool.queue_.length + ∑ worker, distance (pool.workers worker)

theorem sum_distance_moveTo (pool : ThreadPool n α) (worker : Fin n)
    (state : WorkerState α) :
    (∑ other, distance ((pool.moveTo worker state).workers other)) +
        distance (pool.workers worker) =
      (∑ other, distance (pool.workers other)) + distance state := by
  have hrest : (∑ other ∈ Finset.univ.erase worker,
        distance ((pool.moveTo worker state).workers other)) =
      ∑ other ∈ Finset.univ.erase worker, distance (pool.workers other) := by
    refine Finset.sum_congr rfl fun other hother => ?_
    rw [moveTo_of_ne (Finset.mem_erase.mp hother).1]
  calc
    (∑ other, distance ((pool.moveTo worker state).workers other)) +
          distance (pool.workers worker) =
        ((∑ other ∈ Finset.univ.erase worker, distance (pool.workers other)) +
          distance state) + distance (pool.workers worker) := by
      rw [← Finset.sum_erase_add _ _ (Finset.mem_univ worker), hrest, moveTo_self]
    _ = ((∑ other ∈ Finset.univ.erase worker, distance (pool.workers other)) +
          distance (pool.workers worker)) + distance state := by
      rw [Nat.add_right_comm]
    _ = (∑ other, distance (pool.workers other)) + distance state := by
      rw [Finset.sum_erase_add _ _ (Finset.mem_univ worker)]

/-- `stop` has been called after `start`. -/
structure Stopping (pool : ThreadPool n α) : Prop where
  inv : pool.Inv
  started : pool.started = true
  stopped : pool.running_ = false

def gain (input : WorkInput n α) : ℕ :=
  if isAdd input then 3 else 0

def cost (input : WorkInput n α) : ℕ :=
  if isOwn input then 1 else 0

theorem Resumes.distance {pool : ThreadPool n α} {input : WorkInput n α} {worker : Fin n}
    (hpool : pool.Stopping) (hresumes : pool.Resumes input worker) :
    cost input = 1 ∧ gain input = 0 ∧ 2 ≤ distance (pool.workers worker) := by
  cases hresumes with
  | wake hstate => exact absurd hstate (hpool.inv.awake hpool.stopped worker)
  | initialised hstate | skip hstate | finish hstate =>
      rw [hstate]
      exact ⟨rfl, rfl, by simp [ThreadPool.distance]⟩

theorem Stopping.next {pool pool' : ThreadPool n α} {input : WorkInput n α}
    (hpool : pool.Stopping) (hstep : Transition pool input pool') :
    pool'.Stopping ∧ pool'.work + cost input ≤ pool.work + gain input := by
  have hinv := hpool.inv.next hstep
  have hstarted := hpool.started
  have hstopped := hpool.stopped
  cases hstep with
  | add =>
      refine ⟨⟨hinv, hstarted, hstopped⟩, ?_⟩
      simp [work, pushBack, cost, gain, isOwn, isAdd]
      omega
  | addAndWake hwaiting => exact absurd hwaiting (hpool.inv.awake hstopped _)
  | start hnot =>
      rw [hstarted] at hnot
      cases hnot
  | spawn h =>
      have hsum := sum_distance_moveTo pool ⟨pool.threads_, h⟩ .starting
      rw [hpool.inv.fresh ⟨pool.threads_, h⟩ le_rfl] at hsum
      refine ⟨⟨hinv, hstarted, hstopped⟩, ?_⟩
      simp only [work, spawnNext, moveTo_queue_, cost, gain, isOwn, isAdd, distance] at hsum ⊢
      simp only [if_true, Bool.false_eq_true, if_false]
      omega
  | stop =>
      refine ⟨⟨hinv, hstarted, rfl⟩, ?_⟩
      have hsame : pool.notifyAll.workers = pool.workers := by
        funext worker
        rcases notifyAll_cases pool worker with ⟨hwaiting, _⟩ | ⟨_, hnew⟩
        · exact absurd hwaiting (hpool.inv.awake hstopped worker)
        · exact hnew
      simp only [work, hsame, cost, gain, isOwn, isAdd]
      exact le_rfl
  | @resume input worker hresumes =>
      obtain ⟨hcost, hgain, hfar⟩ := hresumes.distance hpool
      have hsum := sum_distance_moveTo pool worker .ready
      refine ⟨⟨hinv, hstarted, hstopped⟩, ?_⟩
      have hready : distance (.ready : WorkerState α) = 1 := rfl
      simp only [work, moveTo_queue_, hcost, hgain]
      omega
  | sleep _ _ hrunning =>
      rw [hstopped] at hrunning
      cases hrunning
  | @leave worker hready =>
      have hsum := sum_distance_moveTo pool worker .exited
      rw [hready] at hsum
      refine ⟨⟨hinv, hstarted, hstopped⟩, ?_⟩
      simp only [work, moveTo_queue_, cost, gain, isOwn, isAdd, distance] at hsum ⊢
      simp only [if_true, Bool.false_eq_true, if_false]
      omega
  | @take worker task rest hready hqueue =>
      have hsum := sum_distance_moveTo pool worker (.holding pool.taken.length task)
      rw [hready] at hsum
      refine ⟨⟨hinv, hstarted, hstopped⟩, ?_⟩
      simp only [work, cost, gain, isOwn, isAdd, distance, hqueue, List.length_cons] at hsum ⊢
      simp only [if_true, Bool.false_eq_true, if_false]
      omega
  | @call worker k a hholds =>
      have hsum := sum_distance_moveTo pool worker (.running k)
      rw [hholds] at hsum
      refine ⟨⟨hinv, hstarted, hstopped⟩, ?_⟩
      simp only [work, moveTo_queue_, cost, gain, isOwn, isAdd, distance] at hsum ⊢
      simp only [if_true, Bool.false_eq_true, if_false]
      omega

theorem Stopping.run {pool final : ThreadPool n α} {inputs : List (WorkInput n α)} {calls}
    (hpool : pool.Stopping) (hrun : Execution.run step pool inputs = .ok (final, calls)) :
    final.Stopping ∧
      final.work + inputs.countP isOwn ≤ pool.work + 3 * inputs.countP isAdd := by
  induction inputs generalizing pool calls with
  | nil =>
      obtain ⟨rfl, _⟩ := run_nil_eq_ok.mp hrun
      exact ⟨hpool, le_rfl⟩
  | cons input inputs ih =>
      obtain ⟨next, _, _, hstep, hrest, _⟩ := run_cons_eq_ok.mp hrun
      obtain ⟨hnext, hwork⟩ := hpool.next (transition_of_step hstep)
      obtain ⟨hfinal, hlater⟩ := ih hnext hrest
      refine ⟨hfinal, ?_⟩
      rw [List.countP_cons, List.countP_cons]
      unfold cost gain at hwork
      split at hwork <;> split at hwork <;> simp only [*] <;> simp <;> omega

/-- A worker that has not left can always go on, or `start` can go on with its
thread. -/
theorem Stopping.enabled {pool : ThreadPool n α} (hpool : pool.Stopping)
    (hleft : ¬ pool.AllExited) : ∃ input, isOwn input ∧ Returns (pool.next input) := by
  obtain ⟨worker, hworker⟩ := not_forall.mp hleft
  cases hstate : pool.workers worker with
  | absent =>
      have hsize := (hpool.inv.absent worker hstate).trans_lt worker.isLt
      refine ⟨.spawn, rfl, pool.spawnNext hsize, ?_⟩
      simp only [ThreadPool.next]
      rw [dif_pos hsize, if_pos hpool.started]
  | starting => exact ⟨.initialised worker, rfl, by simp [ThreadPool.next, hstate]⟩
  | ready => exact ⟨.lock worker, rfl, by simp [ThreadPool.next, hstate]⟩
  | waiting => exact absurd hstate (hpool.inv.awake hpool.stopped worker)
  | holding k task =>
      refine ⟨.call worker, rfl, ?_⟩
      cases task <;> simp [ThreadPool.next, callTask, hstate]
  | running k => exact ⟨.finish worker, rfl, by simp [ThreadPool.next, hstate]⟩
  | exited => exact absurd hstate hworker

/-! ## The promise -/

/-- For the state `final` after the inputs. -/
structure Serves (inputs : List (WorkInput n α)) (final : ThreadPool n α) : Prop where
  /-- Tasks are dequeued in the order in which they were added. -/
  in_order : final.takenTasks ++ final.queue_ = final.added
  /-- A task that was dequeued is called once, by the worker that has it, and
  that is all that is called. -/
  once : ∀ k worker a, final.taken[k]? = some (worker, some a) →
    final.RunsOnce k worker ∨ final.workers worker = .holding k (some a)
  only : ∀ worker k, (worker, k) ∈ final.called →
    final.RunsOnce k worker ∧ ∃ a, final.taken[k]? = some (worker, some a)
  /-- A worker leaves only when the queue is empty and the pool stopped. -/
  leaves : ∀ before input after pool pool' calls, inputs = before ++ input :: after →
    run step {} before = .ok (pool, calls) → pool.next input = .ok pool' →
    ∀ worker, pool.workers worker ≠ .exited → pool'.workers worker = .exited →
      pool.queue_ = [] ∧ pool.running_ = false
  /-- When all workers have left after the first `stop`, what was added before
  it has been dequeued and called. -/
  drained : ∀ before after atStop calls, inputs = before ++ .stop :: after →
    .stop ∉ before → run step {} before = .ok (atStop, calls) → final.AllExited →
    atStop.added <+: final.takenTasks ∧
      ∀ k a, atStop.added[k]? = some (some a) →
        ∃ worker, final.taken[k]? = some (worker, some a) ∧ final.RunsOnce k worker
  /-- After `start` and `stop` the pool's own threads take a bounded number of
  steps, and have a step until all workers have left. -/
  ends : final.started = true → final.running_ = false →
    ∀ more last calls, run step final more = .ok (last, calls) →
      more.countP isOwn ≤ final.work + 3 * more.countP isAdd ∧
        (last.AllExited ∨ ∃ input, isOwn input ∧ Returns (last.next input))

theorem threadPool_serves (hsize : 0 < n) {inputs : List (WorkInput n α)}
    {final : ThreadPool n α} {calls}
    (hrun : run step {} inputs = .ok (final, calls)) : Serves inputs final := by
  have hfinal := inv_initial.run hrun
  constructor
  case in_order => exact hfinal.fifo
  case once =>
    intro k worker a htaken
    exact (hfinal.pending k worker a htaken).imp_left (runsOnce_of_mem hfinal)
  case only =>
    intro worker k hcalled
    exact ⟨runsOnce_of_mem hfinal hcalled, hfinal.called_taken _ hcalled⟩
  case leaves =>
    intro before input after pool pool' calls _ _ hstep worker hbefore hafter
    exact ((transition_of_next hstep).left hbefore hafter).2
  case drained =>
    intro before after atStop callsBefore hinputs hfirst hbefore hexited
    rw [hinputs] at hrun
    obtain ⟨mid, _, _, hmid, hafter, _⟩ := run_append_eq_ok.mp hrun
    rw [hbefore] at hmid
    cases hmid
    have hinv := inv_initial.run hbefore
    have hnever : atStop.NeverStopped :=
      neverStopped_run neverStopped_initial inv_initial hbefore hfirst
    have hdequeued := hinv.taken_of_left hafter (hnever.present ⟨0, hsize⟩) (hexited _)
    refine ⟨hdequeued, ?_⟩
    intro k a hadded
    have hentry : final.takenTasks[k]? = some (some a) := by
      obtain ⟨rest, hrest⟩ := hdequeued
      rw [← hrest, List.getElem?_append_left (List.getElem?_eq_some_iff.mp hadded).1]
      exact hadded
    unfold takenTasks at hentry
    rw [List.getElem?_map] at hentry
    obtain ⟨⟨worker, task⟩, htaken, rfl⟩ := Option.map_eq_some_iff.mp hentry
    rcases hfinal.pending k worker a htaken with hcalled | hholds
    · exact ⟨worker, htaken, runsOnce_of_mem hfinal hcalled⟩
    · rw [hexited worker] at hholds
      cases hholds
  case ends =>
    intro hstarted hstopped more last calls hmore
    have hstopping : final.Stopping := ⟨hfinal, hstarted, hstopped⟩
    obtain ⟨hlast, hwork⟩ := hstopping.run hmore
    refine ⟨(Nat.le_add_left _ _).trans hwork, ?_⟩
    by_cases hexited : last.AllExited
    · exact .inl hexited
    · exact .inr (hlast.enabled hexited)

/-- One task, added before `start`; the second worker waits when `stop` comes. -/
def oneTask : List (WorkInput 2 ℕ) :=
  [.add (some 7) none, .start, .spawn, .initialised 0, .lock 0, .spawn, .initialised 1,
    .lock 1, .call 0, .finish 0, .stop, .lock 0, .lock 1]

theorem threadPool_serves_oneTask :
    ∃ final calls, run step {} oneTask = .ok (final, calls) ∧ final.AllExited ∧
      final.called = [(0, 0)] ∧ Serves oneTask final := by
  have hrun : ∃ final calls, run step {} oneTask = .ok (final, calls) ∧
      final.AllExited ∧ final.called = [(0, 0)] := by
    refine ⟨_, _, rfl, ?_, rfl⟩
    intro worker
    fin_cases worker <;> rfl
  obtain ⟨final, calls, hrun, hexited, hcalled⟩ := hrun
  exact ⟨final, calls, hrun, hexited, hcalled, threadPool_serves (by decide) hrun⟩

end ThreadPool

end MyFileServer
