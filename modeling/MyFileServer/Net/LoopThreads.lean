import MyFileServer.Net.EventLoopThread

/-!
# What holds of the threads of the loops

The members of an `EventLoopThread` follow the place of its thread, and what the
owner has seen of it follows its own place.  The steps of the threads and of the
owner keep this in any order.
-/

namespace MyFileServer

open Execution

/-- The states of a thread in the order in which it goes through them. -/
def LoopThreadState.phase : LoopThreadState → ℕ
  | .absent => 0
  | .starting => 1
  | .posting => 2
  | .initialising => 3
  | .publishing => 4
  | .entering => 5
  | .testing => 6
  | .polling => 7
  | .leaving => 8
  | .unlocking => 9
  | .unwinding => 10
  | .finished => 11

/-- The thread has set `loop_` back to null. -/
def LoopThreadState.hasReset : LoopThreadState → Bool
  | .unlocking | .unwinding | .finished => true
  | .absent | .starting | .posting | .initialising | .publishing | .entering | .testing
  | .polling | .leaving => false

theorem LoopThreadState.hasReset_iff {state : LoopThreadState} :
    state.hasReset = true ↔ 9 ≤ state.phase := by
  cases state <;> decide

namespace EventLoopThread

/-- What a thread that goes on makes of its members, when it does not signal. -/
inductive Runs (callback : Bool) (t : EventLoopThread) : EventLoopThread → Prop
  | tid : t.state = .starting → Runs callback t { t with tid_ := true, state := .posting }
  | post : t.state = .posting →
      Runs callback t { t with
        sem := t.sem + 1
        state := if callback then .initialising else .publishing }
  | initialised : t.state = .initialising →
      Runs callback t { t with initialised := t.initialised + 1, state := .publishing }
  | enter : t.state = .entering → Runs callback t { t with quit_ := false, state := .testing }
  | stay : t.state = .testing → t.quit_ = false →
      Runs callback t { t with state := .polling }
  | stop : t.state = .testing → t.quit_ = true →
      Runs callback t { t with state := .leaving }
  | poll : t.state = .polling → Runs callback t { t with state := .testing }
  | leave : t.state = .leaving → Runs callback t { t with loop_ := false, state := .unlocking }
  | unlock : t.state = .unlocking → Runs callback t { t with state := .unwinding }
  | unwind : t.state = .unwinding → Runs callback t { t with state := .finished }

/-- The members follow the place of the thread. -/
structure Shape (callback : Bool) (t : EventLoopThread) : Prop where
  tid_iff : t.tid_ = true ↔ 2 ≤ t.state.phase
  loop_iff : t.loop_ = true ↔ 5 ≤ t.state.phase ∧ t.state.phase ≤ 8
  initialised_eq : t.initialised = if callback ∧ 4 ≤ t.state.phase then 1 else 0
  called : t.state = .initialising → callback = true

theorem shape_initial (callback : Bool) : Shape callback {} := by
  constructor <;> simp [LoopThreadState.phase]

theorem shape_starting (callback : Bool) : Shape callback { state := .starting } := by
  constructor <;> simp [LoopThreadState.phase]

variable {callback : Bool} {t t' : EventLoopThread}

theorem Shape.runs (ht : t.Shape callback) (hruns : t.Runs callback t') :
    t'.Shape callback := by
  obtain ⟨htid, hloop, hinit, hcalled⟩ := ht
  cases hruns with
  | tid hstate | enter hstate | stay hstate | stop hstate | poll hstate | leave hstate
    | unlock hstate | unwind hstate =>
      rw [hstate] at htid hloop hinit
      constructor <;> simp_all [LoopThreadState.phase]
  | post hstate =>
      rw [hstate] at htid hloop hinit
      cases callback <;> constructor <;> simp_all [LoopThreadState.phase]
  | initialised hstate =>
      have hcallback := hcalled hstate
      rw [hstate] at htid hloop hinit
      constructor <;> simp_all [LoopThreadState.phase]

theorem Shape.publish (ht : t.Shape callback) (hstate : t.state = .publishing) :
    Shape callback { t with loop_ := true, state := .entering } := by
  obtain ⟨htid, hloop, hinit, hcalled⟩ := ht
  rw [hstate] at htid hloop hinit
  constructor <;> simp_all [LoopThreadState.phase]

theorem Shape.withSem (ht : t.Shape callback) (sem : ℕ) : Shape callback { t with sem } :=
  ⟨ht.tid_iff, ht.loop_iff, ht.initialised_eq, ht.called⟩

theorem Shape.withQuit (ht : t.Shape callback) (quit_ : Bool) :
    Shape callback { t with quit_ } :=
  ⟨ht.tid_iff, ht.loop_iff, ht.initialised_eq, ht.called⟩

/-- What the owner knows of a thread stays true while the thread goes on. -/
structure Keeps (t t' : EventLoopThread) : Prop where
  sem_iff : (t.sem ≠ 0 ↔ 3 ≤ t.state.phase) → (t'.sem ≠ 0 ↔ 3 ≤ t'.state.phase)
  made : 1 ≤ t.state.phase → 1 ≤ t'.state.phase
  posted : 3 ≤ t.state.phase → 3 ≤ t'.state.phase
  published : 5 ≤ t.state.phase → 5 ≤ t'.state.phase
  left : 9 ≤ t.state.phase → 9 ≤ t'.state.phase

theorem Keeps.refl (t : EventLoopThread) : Keeps t t :=
  ⟨id, id, id, id, id⟩

theorem keeps_quit (t : EventLoopThread) (quit_ : Bool) : t.Keeps { t with quit_ } :=
  ⟨id, id, id, id, id⟩

theorem Runs.keeps (hruns : t.Runs callback t') : t.Keeps t' := by
  cases hruns with
  | tid hstate | initialised hstate | enter hstate | stay hstate | stop hstate
    | poll hstate | leave hstate | unlock hstate | unwind hstate =>
      constructor <;> simp [hstate, LoopThreadState.phase]
  | post hstate =>
      cases callback <;> constructor <;> simp [hstate, LoopThreadState.phase]

theorem keeps_publish (hstate : t.state = .publishing) :
    t.Keeps { t with loop_ := true, state := .entering } := by
  constructor <;> simp [hstate, LoopThreadState.phase]

/-- Without a signal a thread stays before the signal, or behind it. -/
theorem Runs.phase_le_iff (hruns : t.Runs callback t') :
    t'.state.phase ≤ 4 ↔ t.state.phase ≤ 4 := by
  cases hruns with
  | tid hstate | initialised hstate | enter hstate | stay hstate | stop hstate
    | poll hstate | leave hstate | unlock hstate | unwind hstate =>
      simp [hstate, LoopThreadState.phase]
  | post hstate => cases callback <;> simp [hstate, LoopThreadState.phase]

theorem Runs.phase_lt (hruns : t.Runs callback t') : t.state.phase < 11 := by
  cases hruns with
  | tid hstate | initialised hstate | enter hstate | stay hstate | stop hstate
    | poll hstate | leave hstate | unlock hstate | unwind hstate | post hstate =>
      simp [hstate, LoopThreadState.phase]

theorem Runs.phase_pos (hruns : t.Runs callback t') : 0 < t.state.phase := by
  cases hruns with
  | tid hstate | initialised hstate | enter hstate | stay hstate | stop hstate
    | poll hstate | leave hstate | unlock hstate | unwind hstate | post hstate =>
      simp [hstate, LoopThreadState.phase]

theorem Runs.quiet (hruns : t.Runs callback t') (hquit : t.quit_ = false)
    (hphase : t.state.phase ≤ 7) :
    t'.quit_ = false ∧ t'.state.phase ≤ 7 := by
  cases hruns with
  | tid | initialised | poll => exact ⟨hquit, by simp [LoopThreadState.phase]⟩
  | enter | stay => exact ⟨by simp [hquit], by simp [LoopThreadState.phase]⟩
  | post => cases callback <;> exact ⟨hquit, by simp [LoopThreadState.phase]⟩
  | stop _ hstop =>
      rw [hquit] at hstop
      cases hstop
  | leave hstate | unlock hstate | unwind hstate =>
      rw [hstate] at hphase
      exact absurd hphase (by decide)

end EventLoopThread

namespace EventLoopThreadPool

open EventLoopThread

/-- What a step can do. -/
inductive Transition (pool : EventLoopThreadPool) :
    LoopThreadInput → EventLoopThreadPool → Prop
  | start : pool.owner = .idle → Transition pool .start (pool.moveTo (.creating 0))
  | create {i : ℕ} : pool.owner = .creating i → i < pool.numThreads_ →
      Transition pool .owner
        { (pool.set i { state := .starting }).moveTo (.semWaiting i) with
          size := pool.size + 1 }
  | started {i : ℕ} : pool.owner = .creating i → pool.numThreads_ ≤ i →
      Transition pool .owner { pool.moveTo .started with
        baseInitialised := pool.baseInitialised +
          if pool.numThreads_ = 0 ∧ pool.callback_ then 1 else 0 }
  | semWait {i : ℕ} : pool.owner = .semWaiting i → (pool.threads_ i).sem ≠ 0 →
      Transition pool .owner ((pool.set i { pool.threads_ i with
        sem := (pool.threads_ i).sem - 1 }).moveTo (.locking i))
  | take {i : ℕ} : pool.owner = .locking i → (pool.threads_ i).loop_ = true →
      Transition pool .owner
        { pool.moveTo (.creating (i + 1)) with loops_ := pool.loops_ ++ [i] }
  | wait {i : ℕ} : pool.owner = .locking i → (pool.threads_ i).loop_ = false →
      Transition pool .owner (pool.moveTo (.waiting i))
  | wake {i : ℕ} : pool.owner = .waiting i →
      Transition pool .wake (pool.moveTo (.locking i))
  | run {i : ℕ} {t : EventLoopThread} : (pool.threads_ i).Runs pool.callback_ t →
      Transition pool (.thread i) (pool.set i t)
  | publish {i : ℕ} : (pool.threads_ i).state = .publishing →
      Transition pool (.thread i) ((pool.set i { pool.threads_ i with
        loop_ := true, state := .entering }).notify i)
  | otherQuit {i : ℕ} : (pool.threads_ i).state.hasLoop = true →
      Transition pool (.quit i) (pool.set i { pool.threads_ i with quit_ := true })
  | destroy : pool.owner = .idle ∨ pool.owner = .started →
      Transition pool .destroy (pool.moveTo (.destroying 0))
  | found {i : ℕ} : pool.owner = .destroying i → i < pool.size →
      (pool.threads_ i).loop_ = true → Transition pool .owner (pool.moveTo (.quitting i))
  | skip {i : ℕ} : pool.owner = .destroying i → i < pool.size →
      (pool.threads_ i).loop_ = false →
      Transition pool .owner (pool.moveTo (.destroying (i + 1)))
  | destroyed {i : ℕ} : pool.owner = .destroying i → pool.size ≤ i →
      Transition pool .owner (pool.moveTo .destroyed)
  | point {i : ℕ} : pool.owner = .quitting i → (pool.threads_ i).loop_ = true →
      Transition pool .owner (pool.moveTo (.calling i))
  | quit {i : ℕ} : pool.owner = .calling i → (pool.threads_ i).state.hasLoop = true →
      Transition pool .owner
        ((pool.set i { pool.threads_ i with quit_ := true }).moveTo (.checking i))
  | check {i : ℕ} : pool.owner = .checking i → (pool.threads_ i).state.hasLoop = true →
      Transition pool .owner (pool.moveTo (.joining i))
  | join {i : ℕ} : pool.owner = .joining i → (pool.threads_ i).state = .finished →
      Transition pool .owner (pool.moveTo (.destroying (i + 1)))

theorem step_eq_ok {pool pool' : EventLoopThreadPool} {input : LoopThreadInput}
    {output : Unit} : step pool input = .ok (pool', output) ↔ pool.next input = .ok pool' := by
  unfold step
  cases pool.next input with
  | error stop => exact iff_of_false (fun h => nomatch h) fun h => nomatch h
  | ok result => simp [Functor.map, Except.map]

theorem transition_of_threadStep {pool pool' : EventLoopThreadPool} {i : ℕ}
    (h : pool.threadStep i = .ok pool') : Transition pool (.thread i) pool' := by
  unfold threadStep at h
  cases hstate : (pool.threads_ i).state with
  | absent | finished =>
      simp only [hstate] at h
      cases h
  | starting =>
      simp only [hstate] at h
      cases h
      exact .run (.tid hstate)
  | posting =>
      simp only [hstate] at h
      cases h
      exact .run (.post hstate)
  | initialising =>
      simp only [hstate] at h
      cases h
      exact .run (.initialised hstate)
  | publishing =>
      simp only [hstate] at h
      cases h
      exact .publish hstate
  | entering =>
      simp only [hstate] at h
      cases h
      exact .run (.enter hstate)
  | testing =>
      simp only [hstate] at h
      cases h
      by_cases hquit : (pool.threads_ i).quit_ = true
      · rw [if_pos hquit]
        exact .run (.stop hstate hquit)
      · rw [if_neg hquit]
        exact .run (.stay hstate (Bool.not_eq_true _ ▸ hquit))
  | polling =>
      simp only [hstate] at h
      cases h
      exact .run (.poll hstate)
  | leaving =>
      simp only [hstate] at h
      cases h
      exact .run (.leave hstate)
  | unlocking =>
      simp only [hstate] at h
      split at h
      next => cases h
      next =>
        cases h
        exact .run (.unlock hstate)
  | unwinding =>
      simp only [hstate] at h
      cases h
      exact .run (.unwind hstate)

theorem transition_of_ownerStep {pool pool' : EventLoopThreadPool}
    (h : pool.ownerStep = .ok pool') : Transition pool .owner pool' := by
  unfold ownerStep at h
  cases howner : pool.owner with
  | idle | waiting _ | started | destroyed =>
      simp only [howner] at h
      cases h
  | creating i =>
      simp only [howner] at h
      split at h
      next hlt =>
        cases h
        exact .create howner hlt
      next hle =>
        have hstarted := Transition.started howner (not_lt.mp hle)
        split at h
        next hbase =>
          cases h
          rwa [if_pos hbase] at hstarted
        next hbase =>
          cases h
          rwa [if_neg hbase] at hstarted
  | semWaiting i =>
      simp only [howner] at h
      split at h
      next => cases h
      next hsem =>
        cases h
        exact .semWait howner hsem
  | locking i =>
      simp only [howner] at h
      split at h
      next => cases h
      next =>
        split at h
        next hloop =>
          cases h
          exact .take howner hloop
        next hloop =>
          cases h
          exact .wait howner (Bool.not_eq_true _ ▸ hloop)
  | destroying i =>
      simp only [howner] at h
      split at h
      next hlt =>
        split at h
        next hloop =>
          cases h
          exact .found howner hlt hloop
        next hloop =>
          cases h
          exact .skip howner hlt (Bool.not_eq_true _ ▸ hloop)
      next hle =>
        cases h
        exact .destroyed howner (not_lt.mp hle)
  | quitting i =>
      simp only [howner] at h
      split at h
      next hloop =>
        cases h
        exact .point howner hloop
      next => cases h
  | calling i =>
      simp only [howner] at h
      split at h
      next hloop =>
        cases h
        exact .quit howner hloop
      next => cases h
  | checking i =>
      simp only [howner] at h
      split at h
      next hloop =>
        cases h
        exact .check howner hloop
      next => cases h
  | joining i =>
      simp only [howner] at h
      split at h
      next hfinished =>
        cases h
        exact .join howner hfinished
      next => cases h

theorem transition_of_next {pool pool' : EventLoopThreadPool} {input : LoopThreadInput}
    (h : pool.next input = .ok pool') : Transition pool input pool' := by
  cases input with
  | start =>
      simp only [next] at h
      split at h
      next hidle =>
        cases h
        exact .start hidle
      next => cases h
  | owner => exact transition_of_ownerStep h
  | thread i => exact transition_of_threadStep h
  | wake =>
      simp only [next] at h
      split at h
      next hwaiting =>
        cases h
        exact .wake hwaiting
      next => cases h
  | quit i =>
      simp only [next] at h
      split at h
      next hloop =>
        cases h
        exact .otherQuit hloop
      next => cases h
  | destroy =>
      simp only [next] at h
      split at h
      next howner =>
        cases h
        exact .destroy howner
      next => cases h

/-! ## Where the owner and the threads can be -/

@[simp] theorem set_owner (pool : EventLoopThreadPool) (i : ℕ) (t : EventLoopThread) :
    (pool.set i t).owner = pool.owner := rfl

@[simp] theorem set_numThreads_ (pool : EventLoopThreadPool) (i : ℕ) (t : EventLoopThread) :
    (pool.set i t).numThreads_ = pool.numThreads_ := rfl

@[simp] theorem moveTo_numThreads_ (pool : EventLoopThreadPool) (owner : OwnerState) :
    (pool.moveTo owner).numThreads_ = pool.numThreads_ := rfl

@[simp] theorem moveTo_owner (pool : EventLoopThreadPool) (owner : OwnerState) :
    (pool.moveTo owner).owner = owner := rfl

@[simp] theorem moveTo_threads_ (pool : EventLoopThreadPool) (owner : OwnerState) :
    (pool.moveTo owner).threads_ = pool.threads_ := rfl

theorem set_self (pool : EventLoopThreadPool) (i : ℕ) (t : EventLoopThread) :
    (pool.set i t).threads_ i = t :=
  Function.update_self _ _ _

theorem set_of_ne (pool : EventLoopThreadPool) {i j : ℕ} (t : EventLoopThread) (hj : j ≠ i) :
    (pool.set i t).threads_ j = pool.threads_ j :=
  Function.update_of_ne hj _ _

@[simp] theorem notify_threads_ (pool : EventLoopThreadPool) (i : ℕ) :
    (pool.notify i).threads_ = pool.threads_ := by
  unfold notify
  split <;> rfl

/-- The first `k` loops are taken over, and `m` threads are made. -/
structure Taken (pool : EventLoopThreadPool) (k m : ℕ) : Prop where
  loops_eq : pool.loops_ = List.range k
  size_eq : pool.size = m
  base : pool.baseInitialised = 0

/-- The loops before `i` have ended. -/
structure Joined (pool : EventLoopThreadPool) (i : ℕ) : Prop where
  loops_eq : pool.loops_ = List.range pool.size
  le_size : i ≤ pool.size
  left : ∀ j < i, 9 ≤ (pool.threads_ j).state.phase

def phase (pool : EventLoopThreadPool) (i : ℕ) : ℕ := (pool.threads_ i).state.phase

/-- What holds where the owner is.  While it waits, the signal is still to come,
or the loop has already ended. -/
def OwnerInv (pool : EventLoopThreadPool) : Prop :=
  match pool.owner with
  | .idle => pool.Taken 0 0
  | .creating i => pool.Taken i i ∧ i ≤ pool.numThreads_
  | .semWaiting i => pool.Taken i (i + 1) ∧ i < pool.numThreads_ ∧ 1 ≤ pool.phase i ∧
      ((pool.threads_ i).sem ≠ 0 ↔ 3 ≤ pool.phase i)
  | .locking i => pool.Taken i (i + 1) ∧ i < pool.numThreads_ ∧ 3 ≤ pool.phase i
  | .waiting i => pool.Taken i (i + 1) ∧ i < pool.numThreads_ ∧ 3 ≤ pool.phase i ∧
      (pool.phase i ≤ 4 ∨ 9 ≤ pool.phase i)
  | .started => pool.loops_ = List.range pool.numThreads_ ∧ pool.size = pool.numThreads_ ∧
      pool.baseInitialised = if pool.numThreads_ = 0 ∧ pool.callback_ then 1 else 0
  | .destroying i => pool.Joined i
  | .quitting i | .calling i | .checking i | .joining i => pool.Joined i ∧ i < pool.size
  | .destroyed => pool.Joined pool.size

structure Inv (pool : EventLoopThreadPool) : Prop where
  size_le : pool.size ≤ pool.numThreads_
  shape : ∀ i, (pool.threads_ i).Shape pool.callback_
  fresh : ∀ i, pool.size ≤ i → pool.threads_ i = {}
  handed : ∀ i ∈ pool.loops_, 5 ≤ pool.phase i
  owner : pool.OwnerInv

theorem inv_initial (numThreads : ℕ) (callback : Bool) : (initial numThreads callback).Inv where
  size_le := Nat.zero_le _
  shape := fun _ => shape_initial callback
  fresh := fun _ _ => rfl
  handed := fun _ h => nomatch h
  owner := ⟨rfl, rfl, rfl⟩

theorem Inv.present {pool : EventLoopThreadPool} (hpool : pool.Inv) {i : ℕ}
    (hphase : 0 < pool.phase i) : i < pool.size := by
  by_contra hsize
  unfold phase at hphase
  rw [hpool.fresh i (not_lt.mp hsize)] at hphase
  exact absurd hphase (lt_irrefl 0)

theorem keeps_set {pool : EventLoopThreadPool} {i : ℕ} {t : EventLoopThread}
    (hkeeps : (pool.threads_ i).Keeps t) (j : ℕ) :
    (pool.threads_ j).Keeps ((pool.set i t).threads_ j) := by
  by_cases hj : j = i
  · rw [hj, set_self]
    exact hkeeps
  · rw [set_of_ne pool t hj]
    exact .refl _

theorem Taken.set {pool : EventLoopThreadPool} {k m : ℕ} (htaken : pool.Taken k m) (i : ℕ)
    (t : EventLoopThread) : (pool.set i t).Taken k m :=
  ⟨htaken.loops_eq, htaken.size_eq, htaken.base⟩

theorem Taken.moveTo {pool : EventLoopThreadPool} {k m : ℕ} (htaken : pool.Taken k m)
    (owner : OwnerState) : (pool.moveTo owner).Taken k m :=
  ⟨htaken.loops_eq, htaken.size_eq, htaken.base⟩

theorem Joined.set {pool : EventLoopThreadPool} {k i : ℕ} {t : EventLoopThread}
    (hjoined : pool.Joined k) (hkeeps : (pool.threads_ i).Keeps t) :
    (pool.set i t).Joined k where
  loops_eq := hjoined.loops_eq
  le_size := hjoined.le_size
  left := fun j hj => (keeps_set hkeeps j).left (hjoined.left j hj)

theorem Joined.moveTo {pool : EventLoopThreadPool} {k : ℕ} (hjoined : pool.Joined k)
    (owner : OwnerState) : (pool.moveTo owner).Joined k :=
  ⟨hjoined.loops_eq, hjoined.le_size, hjoined.left⟩

theorem Joined.succ {pool : EventLoopThreadPool} {k : ℕ} (hjoined : pool.Joined k)
    (hlt : k < pool.size) (hleft : 9 ≤ (pool.threads_ k).state.phase) :
    pool.Joined (k + 1) where
  loops_eq := hjoined.loops_eq
  le_size := hlt
  left := by
    intro j hj
    rcases Nat.lt_succ_iff_lt_or_eq.mp hj with hlt | rfl
    · exact hjoined.left j hlt
    · exact hleft

/-- The owner's view survives a step of a thread that does not signal it. -/
theorem OwnerInv.set {pool : EventLoopThreadPool} {i : ℕ} {t : EventLoopThread}
    (howner : pool.OwnerInv) (hkeeps : (pool.threads_ i).Keeps t)
    (hwaiting : pool.owner = .waiting i → t.state.phase ≤ 4 ∨ 9 ≤ t.state.phase) :
    (pool.set i t).OwnerInv := by
  unfold OwnerInv at *
  rw [set_owner]
  cases hstate : pool.owner with
  | idle =>
      rw [hstate] at howner
      exact howner.set i t
  | creating k =>
      rw [hstate] at howner
      exact ⟨howner.1.set i t, howner.2⟩
  | semWaiting k =>
      rw [hstate] at howner
      obtain ⟨htaken, hlt, hmade, hsem⟩ := howner
      exact ⟨htaken.set i t, hlt, (keeps_set hkeeps k).made hmade,
        (keeps_set hkeeps k).sem_iff hsem⟩
  | locking k =>
      rw [hstate] at howner
      obtain ⟨htaken, hlt, hposted⟩ := howner
      exact ⟨htaken.set i t, hlt, (keeps_set hkeeps k).posted hposted⟩
  | waiting k =>
      rw [hstate] at howner
      obtain ⟨htaken, hlt, hposted, hsignal⟩ := howner
      refine ⟨htaken.set i t, hlt, (keeps_set hkeeps k).posted hposted, ?_⟩
      unfold phase at *
      by_cases hk : k = i
      · subst hk
        rw [set_self]
        exact hwaiting hstate
      · rw [set_of_ne pool t hk]
        exact hsignal
  | started =>
      rw [hstate] at howner
      exact howner
  | destroying k =>
      rw [hstate] at howner
      exact howner.set hkeeps
  | quitting k | calling k | checking k | joining k =>
      rw [hstate] at howner
      exact ⟨howner.1.set hkeeps, howner.2⟩
  | destroyed =>
      rw [hstate] at howner
      exact howner.set hkeeps

theorem Inv.shape_set {pool : EventLoopThreadPool} (hpool : pool.Inv) {i : ℕ}
    {t : EventLoopThread} (hshape : t.Shape pool.callback_) (j : ℕ) :
    ((pool.set i t).threads_ j).Shape pool.callback_ := by
  by_cases hj : j = i
  · rw [hj, set_self]
    exact hshape
  · rw [set_of_ne pool t hj]
    exact hpool.shape j

/-- The thread that the owner starts has not handed its loop over. -/
theorem Inv.handed_set {pool : EventLoopThreadPool} (hpool : pool.Inv) {i : ℕ}
    (htaken : pool.loops_ = List.range i) (t : EventLoopThread) (j : ℕ) (hj : j ∈ pool.loops_) :
    5 ≤ (pool.set i t).phase j := by
  have hlt : j < i := by
    rw [htaken] at hj
    exact List.mem_range.mp hj
  unfold phase
  rw [set_of_ne pool t hlt.ne]
  exact hpool.handed j hj

/-- The threads of a pool after one of them went on. -/
theorem Inv.set_threads {pool : EventLoopThreadPool} (hpool : pool.Inv) {i : ℕ}
    {t : EventLoopThread} (hshape : t.Shape pool.callback_) (hsize : i < pool.size)
    (hkeeps : (pool.threads_ i).Keeps t) :
    (∀ j, ((pool.set i t).threads_ j).Shape pool.callback_) ∧
      (∀ j, pool.size ≤ j → (pool.set i t).threads_ j = {}) ∧
      ∀ j ∈ pool.loops_, 5 ≤ (pool.set i t).phase j := by
  refine ⟨hpool.shape_set hshape, ?_, fun j hj => (keeps_set hkeeps j).published
    (hpool.handed j hj)⟩
  intro j hj
  rw [set_of_ne pool t (hsize.trans_le hj).ne']
  exact hpool.fresh j hj

theorem Inv.set {pool : EventLoopThreadPool} (hpool : pool.Inv) {i : ℕ}
    {t : EventLoopThread} (hshape : t.Shape pool.callback_) (hsize : i < pool.size)
    (hkeeps : (pool.threads_ i).Keeps t)
    (hwaiting : pool.owner = .waiting i → t.state.phase ≤ 4 ∨ 9 ≤ t.state.phase) :
    (pool.set i t).Inv := by
  obtain ⟨hshapes, hfresh, hhanded⟩ := hpool.set_threads hshape hsize hkeeps
  exact ⟨hpool.size_le, hshapes, hfresh, hhanded, hpool.owner.set hkeeps hwaiting⟩

theorem Inv.run_thread {pool : EventLoopThreadPool} (hpool : pool.Inv) {i : ℕ}
    {t : EventLoopThread} (hruns : (pool.threads_ i).Runs pool.callback_ t) :
    (pool.set i t).Inv := by
  refine hpool.set ((hpool.shape i).runs hruns) (hpool.present hruns.phase_pos) hruns.keeps ?_
  intro hwaiting
  have howner := hpool.owner
  unfold OwnerInv at howner
  rw [hwaiting] at howner
  exact howner.2.2.2.imp hruns.phase_le_iff.mpr hruns.keeps.left

/-- The signal wakes the owner when it waits for this loop. -/
theorem Inv.publish {pool : EventLoopThreadPool} (hpool : pool.Inv) {i : ℕ}
    (hstate : (pool.threads_ i).state = .publishing) :
    ((pool.set i { pool.threads_ i with loop_ := true, state := .entering }).notify i).Inv := by
  have hsize : i < pool.size := hpool.present (by simp [phase, hstate, LoopThreadState.phase])
  have hshape := (hpool.shape i).publish hstate
  have hkeeps := keeps_publish hstate
  by_cases hwaiting : pool.owner = .waiting i
  · obtain ⟨hshapes, hfresh, hhanded⟩ := hpool.set_threads hshape hsize hkeeps
    have howner := hpool.owner
    unfold OwnerInv at howner
    rw [hwaiting] at howner
    obtain ⟨htaken, hlt, hposted, _⟩ := howner
    unfold notify
    rw [if_pos (by rw [set_owner]; exact hwaiting)]
    refine ⟨hpool.size_le, hshapes, hfresh, hhanded, ?_⟩
    exact ⟨(htaken.set i _).moveTo _, hlt, (keeps_set hkeeps i).posted hposted⟩
  · unfold notify
    rw [if_neg (by rw [set_owner]; exact hwaiting)]
    exact hpool.set hshape hsize hkeeps fun h => absurd h hwaiting

/-- A move of the owner that changes nothing else. -/
theorem Inv.moveTo {pool : EventLoopThreadPool} (hpool : pool.Inv) {owner : OwnerState}
    (howner : (pool.moveTo owner).OwnerInv) : (pool.moveTo owner).Inv :=
  ⟨hpool.size_le, hpool.shape, hpool.fresh, hpool.handed, howner⟩

theorem Inv.create {pool : EventLoopThreadPool} (hpool : pool.Inv) {i : ℕ}
    (hstate : pool.owner = .creating i) (hlt : i < pool.numThreads_) :
    Inv { (pool.set i { state := .starting }).moveTo (.semWaiting i) with
      size := pool.size + 1 } := by
  have howner := hpool.owner
  unfold OwnerInv at howner
  rw [hstate] at howner
  obtain ⟨⟨hloops, hsize, hbase⟩, _⟩ := howner
  constructor
  case size_le =>
    change pool.size + 1 ≤ pool.numThreads_
    omega
  case shape => exact hpool.shape_set (shape_starting _)
  case fresh =>
    intro j hj
    change pool.size + 1 ≤ j at hj
    change (pool.set i _).threads_ j = _
    rw [set_of_ne pool _ (by omega)]
    exact hpool.fresh j (by omega)
  case handed => exact hpool.handed_set hloops _
  case owner =>
    refine ⟨⟨hloops, congrArg (· + 1) hsize, hbase⟩, hlt, ?_⟩
    change 1 ≤ ((pool.set i _).threads_ i).state.phase ∧
      (((pool.set i _).threads_ i).sem ≠ 0 ↔ 3 ≤ ((pool.set i _).threads_ i).state.phase)
    rw [set_self]
    simp [LoopThreadState.phase]

theorem Inv.take {pool : EventLoopThreadPool} (hpool : pool.Inv) {i : ℕ}
    (hstate : pool.owner = .locking i) (hloop : (pool.threads_ i).loop_ = true) :
    Inv { pool.moveTo (.creating (i + 1)) with loops_ := pool.loops_ ++ [i] } := by
  have howner := hpool.owner
  unfold OwnerInv at howner
  rw [hstate] at howner
  obtain ⟨⟨hloops, hsize, hbase⟩, hlt, _⟩ := howner
  refine ⟨hpool.size_le, hpool.shape, hpool.fresh, ?_, ⟨?_, hsize, hbase⟩, hlt⟩
  · intro j hj
    rcases List.mem_append.mp hj with hbefore | hnew
    · exact hpool.handed j hbefore
    · rw [List.mem_singleton.mp hnew]
      exact ((hpool.shape i).loop_iff.mp hloop).1
  · change pool.loops_ ++ [i] = _
    rw [hloops, List.range_succ]

theorem Inv.semWait {pool : EventLoopThreadPool} (hpool : pool.Inv) {i : ℕ}
    (hstate : pool.owner = .semWaiting i) (hsem : (pool.threads_ i).sem ≠ 0) (sem : ℕ) :
    Inv ((pool.set i { pool.threads_ i with sem }).moveTo (.locking i)) := by
  have howner := hpool.owner
  unfold OwnerInv at howner
  rw [hstate] at howner
  obtain ⟨htaken, hlt, _, hposted⟩ := howner
  have hphase := hposted.mp hsem
  have hsize : i < pool.size := hpool.present (Nat.lt_of_lt_of_le (by decide) hphase)
  constructor
  case size_le => exact hpool.size_le
  case shape => exact hpool.shape_set ((hpool.shape i).withSem sem)
  case fresh =>
    intro j hj
    change (pool.set i _).threads_ j = _
    rw [set_of_ne pool _ (hsize.trans_le hj).ne']
    exact hpool.fresh j hj
  case handed => exact hpool.handed_set htaken.loops_eq _
  case owner =>
    refine ⟨(htaken.set i _).moveTo _, hlt, ?_⟩
    change 3 ≤ ((pool.set i _).threads_ i).state.phase
    rw [set_self]
    exact hphase

theorem Inv.next {pool pool' : EventLoopThreadPool} {input : LoopThreadInput}
    (hpool : pool.Inv) (hstep : Transition pool input pool') : pool'.Inv := by
  have howner := hpool.owner
  unfold OwnerInv at howner
  cases hstep with
  | start hstate =>
      rw [hstate] at howner
      exact hpool.moveTo ⟨howner.moveTo _, Nat.zero_le _⟩
  | create hstate hlt => exact hpool.create hstate hlt
  | @started i hstate hle =>
      rw [hstate] at howner
      obtain ⟨⟨hloops, hsize, hbase⟩, hi⟩ := howner
      have hall : i = pool.numThreads_ := le_antisymm hi hle
      rw [hall] at hloops hsize
      refine ⟨hpool.size_le, hpool.shape, hpool.fresh, hpool.handed, hloops, hsize, ?_⟩
      rw [hbase, Nat.zero_add]
      rfl
  | semWait hstate hsem => exact hpool.semWait hstate hsem _
  | take hstate hloop => exact hpool.take hstate hloop
  | @wait i hstate hloop =>
      rw [hstate] at howner
      obtain ⟨htaken, hlt, hposted⟩ := howner
      refine hpool.moveTo ⟨htaken.moveTo _, hlt, hposted, ?_⟩
      -- the null pointer means that the loop is not there yet or not any more
      have hnull := mt (hpool.shape i).loop_iff.mpr (by rw [hloop]; decide)
      change pool.phase i ≤ 4 ∨ 9 ≤ pool.phase i
      unfold phase at *
      omega
  | wake hstate =>
      rw [hstate] at howner
      exact hpool.moveTo ⟨howner.1.moveTo _, howner.2.1, howner.2.2.1⟩
  | run hruns => exact hpool.run_thread hruns
  | publish hstate => exact hpool.publish hstate
  | @otherQuit i hloop =>
      have hphase : 0 < pool.phase i := by
        unfold phase
        cases hstate : (pool.threads_ i).state <;> rw [hstate] at hloop <;>
          simp_all [LoopThreadState.hasLoop, LoopThreadState.phase]
      refine hpool.set ((hpool.shape i).withQuit true) (hpool.present hphase)
        (keeps_quit _ true) ?_
      intro hwaiting
      rw [hwaiting] at howner
      exact howner.2.2.2
  | destroy hstate =>
      rcases hstate with hstate | hstate
      · rw [hstate] at howner
        refine hpool.moveTo ⟨?_, Nat.zero_le _, fun _ h => absurd h (Nat.not_lt_zero _)⟩
        exact howner.loops_eq.trans (congrArg List.range howner.size_eq.symm)
      · rw [hstate] at howner
        refine hpool.moveTo ⟨?_, Nat.zero_le _, fun _ h => absurd h (Nat.not_lt_zero _)⟩
        exact howner.1.trans (congrArg List.range howner.2.1.symm)
  | found hstate hlt =>
      rw [hstate] at howner
      exact hpool.moveTo ⟨howner.moveTo _, hlt⟩
  | @skip i hstate hlt hloop =>
      rw [hstate] at howner
      refine hpool.moveTo ((howner.succ hlt ?_).moveTo _)
      -- `start` took the loop over, so a null pointer means that it has ended
      have hhanded := hpool.handed i (by rw [howner.loops_eq, List.mem_range]; exact hlt)
      have hnull := mt (hpool.shape i).loop_iff.mpr (by rw [hloop]; decide)
      unfold phase at *
      omega
  | @destroyed i hstate hle =>
      rw [hstate] at howner
      have hall : i = pool.size := le_antisymm howner.le_size hle
      rw [hall] at howner
      exact hpool.moveTo (howner.moveTo _)
  | point hstate hloop | check hstate hloop =>
      rw [hstate] at howner
      exact hpool.moveTo ⟨howner.1.moveTo _, howner.2⟩
  | @quit i hstate hloop =>
      rw [hstate] at howner
      obtain ⟨hjoined, hlt⟩ := howner
      have hkeeps := keeps_quit (pool.threads_ i) true
      obtain ⟨hshapes, hfresh, hhanded⟩ :=
        hpool.set_threads ((hpool.shape i).withQuit true) hlt hkeeps
      exact ⟨hpool.size_le, hshapes, hfresh, hhanded, (hjoined.set hkeeps).moveTo _, hlt⟩
  | join hstate hfinished =>
      rw [hstate] at howner
      refine hpool.moveTo ((howner.1.succ howner.2 ?_).moveTo _)
      rw [hfinished]
      decide

theorem Inv.loops_range {pool : EventLoopThreadPool} (hpool : pool.Inv) :
    ∃ k ≤ pool.numThreads_, pool.loops_ = List.range k := by
  have howner := hpool.owner
  have hsize := hpool.size_le
  unfold OwnerInv at howner
  cases hstate : pool.owner with
  | idle =>
      rw [hstate] at howner
      exact ⟨0, Nat.zero_le _, howner.loops_eq⟩
  | creating i =>
      rw [hstate] at howner
      exact ⟨i, howner.2, howner.1.loops_eq⟩
  | semWaiting i | locking i | waiting i =>
      rw [hstate] at howner
      exact ⟨i, howner.2.1.le, howner.1.loops_eq⟩
  | started =>
      rw [hstate] at howner
      exact ⟨_, le_rfl, howner.1⟩
  | destroying i | destroyed =>
      rw [hstate] at howner
      exact ⟨_, hsize, howner.loops_eq⟩
  | quitting i | calling i | checking i | joining i =>
      rw [hstate] at howner
      exact ⟨_, hsize, howner.1.loops_eq⟩

theorem Inv.run {pool final : EventLoopThreadPool} {inputs : List LoopThreadInput} {calls}
    (hpool : pool.Inv) (hrun : Execution.run step pool inputs = .ok (final, calls)) :
    final.Inv := by
  have hstep : ∀ pool input pool' output, Inv pool → True →
      step pool input = .ok (pool', output) → Inv pool' := by
    intro pool input pool' output hpool _ hnext
    exact hpool.next (transition_of_next (step_eq_ok.mp hnext))
  exact (run_invariant hstep hrun hpool fun _ _ => trivial).1

end EventLoopThreadPool

end MyFileServer
