import MyFileServer.Net.EventLoop

/-!
# Queued functors and the wakeup

The functors that the loop has taken over and those that still wait make one
queue.  A functor that waits when the loop goes to `poll` has left a mark:
the counter of the eventfd, or a thread that has yet to write to it.
-/

namespace MyFileServer

open Execution

/-! ## The queue of functors -/

namespace Place

variable {F : Type}

/-- The functors that the loop has taken over and not called yet. -/
def taken : Place F → List F
  | running functors => functors
  | inFunctor functors => functors
  | _ => []

/-- The flag `callingPendingFunctors_` while the loop is at the place. -/
def calling : Place F → Bool
  | swap | running _ | inFunctor _ => true
  | _ => false

/-- From here the loop comes to the swap before it comes to `poll`. -/
def collects : Place F → Bool
  | handling _ | swap => true
  | _ => false

end Place

namespace EventLoop

variable {Tid F : Type}

def owed (s : EventLoop Tid F) : List F :=
  s.place.taken ++ s.pendingFunctors_

/-! ## The mark of a waiting functor -/

theorem Advanced.calling_eq {s s' : EventLoop Tid F} {ready : List ActiveChannel}
    {output : List F} (hadvanced : Advanced s ready s' output)
    (hcalling : s.callingPendingFunctors_ = s.place.calling) :
    s'.callingPendingFunctors_ = s'.place.calling := by
  cases hadvanced with
  | tests hplace =>
      rw [hplace] at hcalling
      cases s.quit_ <;> exact hcalling
  | handled => rfl
  | done => rfl
  | _ hplace =>
      rw [hplace] at hcalling
      exact hcalling

/-- The swap empties the vector.  Any other step that does not lead to it
leaves the vector and the counter as they are. -/
theorem Advanced.pending_or {s s' : EventLoop Tid F} {ready : List ActiveChannel}
    {output : List F} (hadvanced : Advanced s ready s' output) :
    s'.pendingFunctors_ = [] ∨ s'.place.collects ∨
      s.place.collects = false ∧ s'.pendingFunctors_ = s.pendingFunctors_ ∧
        s'.wakeupFd_ = s.wakeupFd_ := by
  cases hadvanced with
  | tests hplace =>
      rw [hplace]
      exact .inr (.inr ⟨rfl, rfl, rfl⟩)
  | swaps => exact .inl rfl
  | returns => exact .inr (.inl rfl)
  | reads => exact .inr (.inl rfl)
  | handles => exact .inr (.inl rfl)
  | handled => exact .inr (.inl rfl)
  | _ hplace =>
      rw [hplace]
      exact .inr (.inr ⟨rfl, rfl, rfl⟩)

theorem collects_of_inCallback {place : Place F} (hplace : place.inCallback)
    (hcalling : place.calling = false) : place.collects := by
  cases place with
  | handling => rfl
  | inFunctor => cases hcalling
  | _ => cases hplace

structure WakeupInv (s : EventLoop Tid F) : Prop where
  calling : s.callingPendingFunctors_ = s.place.calling
  own : s.inCall .loopThread = .queueInLoop → s.place.inCallback
  covered : s.pendingFunctors_ ≠ [] →
    s.place.collects ∨ 0 < s.wakeupFd_ ∨ ∃ caller, s.inCall caller = .queueInLoop

theorem WakeupInv.advance {s s' : EventLoop Tid F} {ready : List ActiveChannel}
    {output : List F} (hs : s.WakeupInv) (hcall : s.inCall .loopThread = .none)
    (hadvanced : Advanced s ready s' output) : s'.WakeupInv where
  calling := hadvanced.calling_eq hs.calling
  own := by
    rw [hadvanced.inCall_eq, hcall]
    simp
  covered := by
    intro hpending
    rw [hadvanced.inCall_eq]
    rcases hadvanced.pending_or with hempty | hcollects | ⟨hplace, hsame, hcounter⟩
    · exact absurd hempty hpending
    · exact .inl hcollects
    · rw [hsame] at hpending
      rw [hcounter]
      rcases hs.covered hpending with hcollects | hmark
      · simp [hplace] at hcollects
      · exact .inr hmark

theorem start_wakeupInv : ({} : EventLoop Tid F).WakeupInv where
  calling := rfl
  own := by simp
  covered := by simp

variable [DecidableEq Tid]

theorem own_setCall {s : EventLoop Tid F} (hs : s.WakeupInv) {caller : Caller Tid}
    {call : InCall} (hcall : call ≠ .queueInLoop)
    (hown : (s.setCall caller call).inCall .loopThread = .queueInLoop) :
    s.place.inCallback := by
  by_cases hcaller : Caller.loopThread = caller
  · subst hcaller
    rw [setCall_self] at hown
    exact absurd hown hcall
  · rw [setCall_other hcaller] at hown
    exact hs.own hown

/-- A call of another kind leaves the marks of the waiting functors. -/
theorem covered_setCall {s : EventLoop Tid F} (hs : s.WakeupInv)
    {caller : Caller Tid} {call : InCall}
    (hcaller : s.inCall caller ≠ .queueInLoop)
    (hpending : s.pendingFunctors_ ≠ []) :
    s.place.collects ∨ 0 < s.wakeupFd_ ∨
      ∃ caller', (s.setCall caller call).inCall caller' = .queueInLoop := by
  rcases hs.covered hpending with hcollects | hcounter | ⟨caller', hpushed⟩
  · exact .inl hcollects
  · exact .inr (.inl hcounter)
  · have hne : caller' ≠ caller := by
      rintro rfl
      exact hcaller hpushed
    exact .inr (.inr ⟨caller', by rw [setCall_other hne, hpushed]⟩)

theorem WakeupInv.step {s s' : EventLoop Tid F} {i : LoopStep Tid F}
    {output : List F} (hs : s.WakeupInv) (hstep : s.step i = .ok (s', output)) :
    s'.WakeupInv := by
  have hown : ∀ caller, (s.setCall caller .none).inCall .loopThread = .queueInLoop →
      s.place.inCallback :=
    fun caller => own_setCall hs (by decide)
  cases stepped_of_ok hstep with
  | advance hcall hadvanced => exact hs.advance hcall hadvanced
  | @push caller cb _ hplace =>
      refine ⟨hs.calling, ?_, fun _ => .inr (.inr ⟨caller, setCall_self _ _ _⟩)⟩
      intro hown
      by_cases hcaller : Caller.loopThread = caller
      · exact hplace hcaller.symm
      · rw [setCall_other hcaller] at hown
        exact hs.own hown
  | wakes _ =>
      exact ⟨hs.calling, hown _, fun _ => .inr (.inl (wakeup_pos _))⟩
  | silent hcall hcalling =>
      -- a handler has queued it: the swap is still ahead
      have hcollects := collects_of_inCallback (hs.own hcall)
        (hs.calling.symm.trans hcalling)
      exact ⟨hs.calling, hown _, fun _ => .inl hcollects⟩
  | quit hcall _ =>
      exact ⟨hs.calling, own_setCall hs (by decide),
        covered_setCall hs (by rw [hcall]; decide)⟩
  | quitWakes _ =>
      exact ⟨hs.calling, hown .loopThread, fun _ => .inr (.inl (wakeup_pos _))⟩
  | quitSilent hcall =>
      exact ⟨hs.calling, hown _,
        covered_setCall hs (by rw [hcall]; decide)⟩

/-! ## Every run -/

theorem step_balance {s s' : EventLoop Tid F} {i : LoopStep Tid F}
    {output : List F} (hstep : s.step i = .ok (s', output)) :
    output ++ s'.owed = s.owed ++ i.queued := by
  unfold owed
  cases stepped_of_ok hstep with
  | advance _ hadvanced =>
      cases hadvanced with
      | tests hplace =>
          rw [hplace]
          cases s.quit_ <;> simp [Place.taken, LoopStep.queued]
      | _ hplace =>
          rw [hplace]
          simp [Place.taken, handleRead, LoopStep.queued]
  | push _ _ => simp [setCall, LoopStep.queued]
  | wakes _ => simp [setCall, LoopStep.queued]
  | silent _ _ => simp [setCall, LoopStep.queued]
  | quit _ _ => simp [setCall, LoopStep.queued]
  | quitWakes _ => simp [setCall, LoopStep.queued]
  | quitSilent _ => simp [setCall, LoopStep.queued]

/-- The functors that the loop has called are the first ones that were
queued, in their order, and it owes the others.  At `poll` a waiting functor has
its mark. -/
theorem functors_run_in_order {s : EventLoop Tid F}
    {steps : List (LoopStep Tid F)} {calls : List (LoopCall Tid F)}
    (hrun : run step {} steps = .ok (s, calls)) :
    calls.flatMap (·.output) <+: steps.flatMap LoopStep.queued ∧
      calls.flatMap (·.output) ++ s.owed = steps.flatMap LoopStep.queued ∧
      (s.place = .poll → s.pendingFunctors_ ≠ [] →
        0 < s.wakeupFd_ ∨ ∃ t, s.inCall (.other t) = .queueInLoop) := by
  have hbalance : ∀ s i next output, True → True →
      step (s : EventLoop Tid F) i = .ok (next, output) →
        True ∧ output ++ next.owed = s.owed ++ i.queued :=
    fun _ _ _ _ _ _ hstep => ⟨trivial, step_balance hstep⟩
  have hqueue := run_balance hbalance hrun trivial (fun _ _ => trivial)
  have hkept : ∀ s i next output, s.WakeupInv → True →
      step (s : EventLoop Tid F) i = .ok (next, output) → next.WakeupInv :=
    fun _ _ _ _ hs _ hstep => hs.step hstep
  have hinv := (run_invariant hkept hrun start_wakeupInv (fun _ _ => trivial)).1
  have howed : calls.flatMap (·.output) ++ s.owed = steps.flatMap LoopStep.queued := by
    rw [← run_inputs hrun, List.flatMap_map]
    exact hqueue
  refine ⟨⟨s.owed, howed⟩, howed, ?_⟩
  intro hplace hpending
  rcases hinv.covered hpending with hcollects | hcounter | ⟨caller, hcaller⟩
  · rw [hplace] at hcollects
    cases hcollects
  · exact .inl hcounter
  · cases caller with
    | loopThread =>
        have hcallback := hinv.own hcaller
        rw [hplace] at hcallback
        cases hcallback
    | other t => exact .inr ⟨t, hcaller⟩

/-- Thread 0 queues twice.  The second functor comes after the swap, so it
waits when the loop is back at `poll`. -/
def queuedTwice : List (LoopStep ℕ ℕ) :=
  [.advance [], .advance [], .queueInLoop (.other 0) 1, .queueReturns (.other 0),
    .advance [.other], .advance [], .advance [], .advance [],
    .queueInLoop (.other 0) 2, .advance [], .advance [], .advance [],
    .queueReturns (.other 0), .advance []]

theorem functors_run_in_order_two :
    ∃ s calls, run step {} queuedTwice = .ok (s, calls) ∧
      calls.flatMap (·.output) <+: queuedTwice.flatMap LoopStep.queued ∧
      s.pendingFunctors_ = [2] ∧
      (0 < s.wakeupFd_ ∨ ∃ t, s.inCall (.other t) = .queueInLoop) := by
  have hrun : ∃ s calls, run step {} queuedTwice = .ok (s, calls) ∧
      s.place = .poll ∧ s.pendingFunctors_ = [2] := ⟨_, _, rfl, rfl, rfl⟩
  rcases hrun with ⟨s, calls, hrun, hplace, hpending⟩
  obtain ⟨horder, _, hmarked⟩ := functors_run_in_order hrun
  refine ⟨s, calls, hrun, horder, hpending, hmarked hplace ?_⟩
  rw [hpending]
  exact List.cons_ne_nil _ _

end EventLoop

end MyFileServer
