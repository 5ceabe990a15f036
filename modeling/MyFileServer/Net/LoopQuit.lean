import MyFileServer.Net.EventLoop

/-!
# Leaving the loop

`quit()` sets the flag and wakes the loop when the loop thread itself calls
it.  A call from another thread is heard if the loop thread has still to test
the flag; before `loop()` has cleared the flag, and while the loop thread
sleeps, it is lost.
-/

namespace MyFileServer

open Execution

namespace EventLoop

variable {Tid F : Type}

/-- The loop comes to the test of the flag without another event. -/
def Leaving (s : EventLoop Tid F) : Prop :=
  s.quit_ = true ∧ s.place ≠ .entry ∧ ¬ s.Asleep

def QuitHeard (s : EventLoop Tid F) : LoopStep Tid F → Prop
  | .quit _ => s.place ≠ .entry ∧ ¬ s.Asleep
  | _ => True

instance [DecidableEq F] (s : EventLoop Tid F) (i : LoopStep Tid F) :
    Decidable (s.QuitHeard i) :=
  match i with
  | .quit _ => inferInstanceAs (Decidable (_ ∧ _))
  | .advance _ | .queueInLoop _ _ | .queueReturns _ | .quitReturns _ => .isTrue trivial

theorem wakeup_not_asleep (s : EventLoop Tid F) : ¬ s.wakeup.Asleep := by
  intro hasleep
  have hpos := s.wakeup_pos
  rw [hasleep.2] at hpos
  exact absurd hpos (lt_irrefl 0)

theorem Leaving.advance {s s' : EventLoop Tid F} {ready : List ActiveChannel}
    {output : List F} (hs : s.Leaving) (hadvanced : Advanced s ready s' output) :
    s'.Leaving := by
  rcases hs with ⟨hquit, hentry, _⟩
  cases hadvanced with
  | entry hplace => exact absurd hplace hentry
  | tests hplace =>
      unfold Leaving Asleep
      simp [hquit]
  | _ hplace =>
      refine ⟨hquit, by simp, ?_⟩
      rintro ⟨hpoll, _⟩
      cases hpoll

/-- A thread that is in a call of `quit`, or back from one, has made it. -/
structure QuitInv (past : List (LoopStep Tid F)) (s : EventLoop Tid F) : Prop where
  leaving : ∀ caller, .quit caller ∈ past → s.Leaving
  calling : ∀ caller, s.inCall caller = .quit → .quit caller ∈ past
  returned : ∀ caller, .quitReturns caller ∈ past → .quit caller ∈ past

theorem start_quitInv : QuitInv ([] : List (LoopStep Tid F)) {} where
  leaving := by simp
  calling := by simp
  returned := by simp

variable [DecidableEq Tid]

theorem Leaving.step {s s' : EventLoop Tid F} {i : LoopStep Tid F}
    {output : List F} (hs : s.Leaving) (hstep : s.step i = .ok (s', output)) :
    s'.Leaving := by
  cases stepped_of_ok hstep with
  | advance _ hadvanced => exact hs.advance hadvanced
  | push _ _ => exact hs
  | wakes _ => exact ⟨hs.1, hs.2.1, wakeup_not_asleep _⟩
  | silent _ _ => exact hs
  | quit _ _ => exact ⟨rfl, hs.2⟩
  | quitWakes _ => exact ⟨hs.1, hs.2.1, wakeup_not_asleep _⟩
  | quitSilent _ => exact hs

theorem inCall_quit_of_step {s s' : EventLoop Tid F} {i : LoopStep Tid F}
    {output : List F} {caller : Caller Tid} (hstep : s.step i = .ok (s', output))
    (hcall : s'.inCall caller = .quit) :
    s.inCall caller = .quit ∨ i = .quit caller := by
  have hset : ∀ (s : EventLoop Tid F) caller' call,
      (s.setCall caller' call).inCall caller = .quit →
        s.inCall caller = .quit ∨ caller' = caller ∧ call = .quit := by
    intro s caller' call hcall
    by_cases hcaller : caller = caller'
    · subst hcaller
      exact .inr ⟨rfl, (setCall_self s caller call).symm.trans hcall⟩
    · rw [setCall_other hcaller] at hcall
      exact .inl hcall
  cases stepped_of_ok hstep with
  | advance _ hadvanced =>
      rw [hadvanced.inCall_eq] at hcall
      exact .inl hcall
  | quit _ _ =>
      rcases hset _ _ _ hcall with hbefore | ⟨rfl, _⟩
      · exact .inl hbefore
      · exact .inr rfl
  | _ =>
      rcases hset _ _ _ hcall with hbefore | ⟨_, hcall⟩
      · exact .inl hbefore
      · cases hcall

theorem QuitInv.step {past : List (LoopStep Tid F)} {s s' : EventLoop Tid F}
    {i : LoopStep Tid F} {output : List F} (hs : QuitInv past s)
    (hheard : s.QuitHeard i) (hstep : s.step i = .ok (s', output)) :
    QuitInv (past ++ [i]) s' where
  leaving := by
    intro caller hquit
    rcases List.mem_append.mp hquit with hpast | hlast
    · exact (hs.leaving caller hpast).step hstep
    · obtain rfl := List.mem_singleton.mp hlast
      cases stepped_of_ok hstep with
      | quit _ _ => exact ⟨rfl, hheard⟩
  calling := by
    intro caller hcall
    rw [List.mem_append, List.mem_singleton]
    rcases inCall_quit_of_step hstep hcall with hbefore | rfl
    · exact .inl (hs.calling caller hbefore)
    · exact .inr rfl
  returned := by
    intro caller hreturns
    rw [List.mem_append]
    left
    rcases List.mem_append.mp hreturns with hpast | hlast
    · exact hs.returned caller hpast
    · obtain rfl := List.mem_singleton.mp hlast
      apply hs.calling
      cases stepped_of_ok hstep with
      | quitWakes hcall => exact hcall
      | quitSilent hcall => exact hcall

/-- In every run in which each call of `quit` finds the loop past the reset
of the flag and awake, the flag stays set and the loop does not sleep once
one of them has returned. -/
theorem quit_not_lost {s : EventLoop Tid F} {steps : List (LoopStep Tid F)}
    {calls : List (LoopCall Tid F)} (hrun : run step {} steps = .ok (s, calls))
    (hheard : ∀ call ∈ calls, call.pre.QuitHeard call.input)
    {caller : Caller Tid} (hreturned : .quitReturns caller ∈ steps) :
    s.quit_ = true ∧ s.place ≠ .entry ∧ ¬ s.Asleep := by
  have hkept : ∀ (past : List (LoopCall Tid F)) s i next output,
      QuitInv (past.map Call.input) s → s.QuitHeard i →
      step s i = .ok (next, output) →
        QuitInv ((past ++ [Call.mk s i output]).map Call.input) next := by
    intro past s i next output hs hheard hstep
    rw [List.map_append]
    exact hs.step hheard hstep
  have hinv : QuitInv (([] ++ calls).map Call.input) s :=
    run_history hkept hrun start_quitInv hheard
  rw [List.nil_append, run_inputs hrun] at hinv
  exact hinv.leaving caller (hinv.returned caller hreturned)

/-- The loop thread calls `quit()` in a handler. -/
def quitInHandler : List (LoopStep ℕ ℕ) :=
  [.advance [], .advance [], .advance [.other], .quit .loopThread,
    .quitReturns .loopThread, .advance [], .advance [], .advance [],
    .advance [], .advance []]

theorem quit_not_lost_handler :
    ∃ s calls, run step {} quitInHandler = .ok (s, calls) ∧ s.place = .exited ∧
      s.quit_ = true ∧ s.place ≠ .entry ∧ ¬ s.Asleep := by
  have hrun : ∃ s calls, run step {} quitInHandler = .ok (s, calls) ∧
      s.place = .exited ∧ ∀ call ∈ calls, call.pre.QuitHeard call.input :=
    ⟨_, _, rfl, rfl, by decide⟩
  rcases hrun with ⟨s, calls, hrun, hexited, hheard⟩
  have hreturned : .quitReturns .loopThread ∈ quitInHandler := by
    simp [quitInHandler]
  exact ⟨s, calls, hrun, hexited, quit_not_lost hrun hheard hreturned⟩

/-! ## The two ways to lose a call -/

/-- Another thread does not wake the loop. -/
theorem asleep_after_quit {s s₁ s₂ : EventLoop Tid F} {t : Tid}
    {output₁ output₂ : List F} (hasleep : s.Asleep)
    (hquit : s.step (.quit (.other t)) = .ok (s₁, output₁))
    (hreturns : s₁.step (.quitReturns (.other t)) = .ok (s₂, output₂)) :
    s₂.Asleep := by
  cases stepped_of_ok hquit with
  | quit _ _ =>
      cases stepped_of_ok hreturns with
      | quitSilent _ => exact hasleep

/-- The start of `loop()` clears the flag. -/
theorem reset_after_quit {s s₁ : EventLoop Tid F} {ready : List ActiveChannel}
    {output : List F} (hentry : s.place = .entry)
    (hstep : s.step (.advance ready) = .ok (s₁, output)) :
    s₁.quit_ = false ∧ s₁.place = .check := by
  cases stepped_of_ok hstep with
  | advance _ hadvanced =>
      cases hadvanced with
      | entry => exact ⟨rfl, rfl⟩
      | _ hplace =>
          rw [hentry] at hplace
          cases hplace

/-- Thread 0 calls `quit()` while the loop sleeps, and in a second run before
`loop()` has started. -/
theorem quit_lost :
    (∃ s : EventLoop ℕ ℕ, ∃ calls,
      run step {} [.advance [], .advance [], .quit (.other 0),
        .quitReturns (.other 0)] = .ok (s, calls) ∧ s.Asleep) ∧
    ∃ s : EventLoop ℕ ℕ, ∃ calls,
      run step {} [.quit (.other 0), .quitReturns (.other 0), .advance [],
        .advance []] = .ok (s, calls) ∧ s.quit_ = false ∧ s.Asleep :=
  ⟨⟨_, _, rfl, rfl, rfl⟩, ⟨_, _, rfl, rfl, rfl, rfl⟩⟩

end EventLoop

end MyFileServer
