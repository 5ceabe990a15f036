import MyFileServer.Lib.Execution

/-!
# The event loop and the threads that call it

The state of an `EventLoop` with the place that its own thread has reached in
`loop()`, and for every thread the call of `queueInLoop` or `quit` that it is
in.  A step is what one thread does without another one seeing a part of it:
the critical section of the mutex, an access to an atomic flag, or a system
call on the eventfd.
-/

namespace MyFileServer

open Execution

/-- What `poll` puts into `activeChannels_`: the channel of the eventfd, or
any other channel. -/
inductive ActiveChannel
  | wakeupChannel
  | other
  deriving DecidableEq

inductive Place (F : Type)
  | entry
  | check
  | poll
  | handling (activeChannels_ : List ActiveChannel)
  | swap
  | running (functors : List F)
  | inFunctor (functors : List F)
  | exited
  deriving DecidableEq

inductive Caller (Tid : Type)
  | loopThread
  | other (t : Tid)
  deriving DecidableEq

/-- The call that a thread is in: its first statement is done, the test that
decides about `wakeup()` is not. -/
inductive InCall
  | none
  | queueInLoop
  | quit
  deriving DecidableEq

structure EventLoop (Tid F : Type) where
  quit_ : Bool := false
  callingPendingFunctors_ : Bool := false
  /-- the counter of the eventfd -/
  wakeupFd_ : ℕ := 0
  pendingFunctors_ : List F := []
  place : Place F := .entry
  inCall : Caller Tid → InCall := fun _ => .none

inductive LoopStep (Tid F : Type)
  /-- The loop thread goes on; `ready` is what `poll` returns if it is there. -/
  | advance (ready : List ActiveChannel)
  | queueInLoop (caller : Caller Tid) (cb : F)
  | queueReturns (caller : Caller Tid)
  | quit (caller : Caller Tid)
  | quitReturns (caller : Caller Tid)

namespace Place

variable {F : Type}

/-- A handler or a functor runs, and may call the loop it runs on. -/
def inCallback : Place F → Bool
  | handling (.other :: _) => true
  | inFunctor _ => true
  | _ => false

/-- The callback that a thread is started with runs before `loop()`. -/
def mayQuit : Place F → Bool
  | entry => true
  | place => place.inCallback

end Place

namespace EventLoop

variable {Tid F : Type}

def eventfdMax : ℕ := 2 ^ 64 - 2

/-- The descriptor is non-blocking, so a write that would overflow the counter
fails and leaves it. -/
def wakeup (s : EventLoop Tid F) : EventLoop Tid F :=
  { s with
    wakeupFd_ := if s.wakeupFd_ < eventfdMax then s.wakeupFd_ + 1 else s.wakeupFd_ }

def handleRead (s : EventLoop Tid F) : EventLoop Tid F :=
  { s with wakeupFd_ := 0 }

/-- A ready set names the eventfd only when its counter is positive; a
timeout is the empty set, and a full event list may leave the eventfd out. -/
def PollReturns (s : EventLoop Tid F) (ready : List ActiveChannel) : Prop :=
  ready.count .wakeupChannel ≤ 1 ∧
    (.wakeupChannel ∈ ready → 0 < s.wakeupFd_)

instance (s : EventLoop Tid F) (ready : List ActiveChannel) :
    Decidable (s.PollReturns ready) :=
  inferInstanceAs (Decidable (_ ∧ _))

/-- The next step of `loop()`.  The output lists the functors that are called
in it. -/
def advance (s : EventLoop Tid F) (ready : List ActiveChannel) :
    Except Unit (EventLoop Tid F × List F) :=
  match s.place with
  | .entry => .ok ({ s with quit_ := false, place := .check }, [])
  | .check => .ok ({ s with place := if s.quit_ then .exited else .poll }, [])
  | .poll =>
      if s.PollReturns ready then
        .ok ({ s with place := .handling ready }, [])
      else
        .error ()
  | .handling (.wakeupChannel :: activeChannels) =>
      .ok ({ s.handleRead with place := .handling activeChannels }, [])
  | .handling (.other :: activeChannels) =>
      .ok ({ s with place := .handling activeChannels }, [])
  | .handling [] =>
      .ok ({ s with callingPendingFunctors_ := true, place := .swap }, [])
  | .swap =>
      .ok ({ s with pendingFunctors_ := [], place := .running s.pendingFunctors_ }, [])
  | .running (functor :: functors) =>
      .ok ({ s with place := .inFunctor functors }, [functor])
  | .inFunctor functors => .ok ({ s with place := .running functors }, [])
  | .running [] =>
      .ok ({ s with callingPendingFunctors_ := false, place := .check }, [])
  | .exited => .error ()

variable [DecidableEq Tid]

def setCall (s : EventLoop Tid F) (caller : Caller Tid) (call : InCall) :
    EventLoop Tid F :=
  { s with inCall := Function.update s.inCall caller call }

def step (s : EventLoop Tid F) :
    LoopStep Tid F → Except Unit (EventLoop Tid F × List F)
  | .advance ready =>
      if s.inCall .loopThread = .none then s.advance ready else .error ()
  | .queueInLoop caller cb =>
      if s.inCall caller = .none ∧ (caller = .loopThread → s.place.inCallback) then
        .ok ({ s with pendingFunctors_ := s.pendingFunctors_ ++ [cb] }.setCall caller
          .queueInLoop, [])
      else
        .error ()
  | .queueReturns caller =>
      if s.inCall caller = .queueInLoop then
        let s := s.setCall caller .none
        if caller ≠ .loopThread ∨ s.callingPendingFunctors_ then
          .ok (s.wakeup, [])
        else
          .ok (s, [])
      else
        .error ()
  | .quit caller =>
      if s.inCall caller = .none ∧ (caller = .loopThread → s.place.mayQuit) then
        .ok ({ s with quit_ := true }.setCall caller .quit, [])
      else
        .error ()
  | .quitReturns caller =>
      if s.inCall caller = .quit then
        let s := s.setCall caller .none
        if caller = .loopThread then .ok (s.wakeup, []) else .ok (s, [])
      else
        .error ()

/-- The loop thread sleeps in `epoll_wait`, or goes to sleep there, and only
another descriptor or the timeout ends that. -/
def Asleep (s : EventLoop Tid F) : Prop :=
  s.place = .poll ∧ s.wakeupFd_ = 0

instance [DecidableEq F] (s : EventLoop Tid F) : Decidable s.Asleep :=
  inferInstanceAs (Decidable (_ ∧ _))

end EventLoop

namespace EventLoop

variable {Tid F : Type}

/-! ## What a step does -/

@[simp] theorem wakeup_place (s : EventLoop Tid F) : s.wakeup.place = s.place := rfl

@[simp] theorem wakeup_pendingFunctors_ (s : EventLoop Tid F) :
    s.wakeup.pendingFunctors_ = s.pendingFunctors_ := rfl

@[simp] theorem wakeup_callingPendingFunctors_ (s : EventLoop Tid F) :
    s.wakeup.callingPendingFunctors_ = s.callingPendingFunctors_ := rfl

@[simp] theorem wakeup_inCall (s : EventLoop Tid F) : s.wakeup.inCall = s.inCall := rfl

@[simp] theorem wakeup_quit_ (s : EventLoop Tid F) : s.wakeup.quit_ = s.quit_ := rfl

theorem wakeup_pos (s : EventLoop Tid F) : 0 < s.wakeup.wakeupFd_ := by
  have hmax : 0 < eventfdMax := by decide
  unfold wakeup
  simp only
  split <;> omega

/-- One constructor for each place of `loop()`. -/
inductive Advanced (s : EventLoop Tid F) (ready : List ActiveChannel) :
    EventLoop Tid F → List F → Prop
  | entry : s.place = .entry →
      Advanced s ready { s with quit_ := false, place := .check } []
  | tests : s.place = .check →
      Advanced s ready { s with place := if s.quit_ then .exited else .poll } []
  | returns : s.place = .poll → s.PollReturns ready →
      Advanced s ready { s with place := .handling ready } []
  | reads {rest : List ActiveChannel} :
      s.place = .handling (.wakeupChannel :: rest) →
      Advanced s ready { s.handleRead with place := .handling rest } []
  | handles {rest : List ActiveChannel} :
      s.place = .handling (.other :: rest) →
      Advanced s ready { s with place := .handling rest } []
  | handled : s.place = .handling [] →
      Advanced s ready { s with callingPendingFunctors_ := true, place := .swap } []
  | swaps : s.place = .swap →
      Advanced s ready
        { s with pendingFunctors_ := [], place := .running s.pendingFunctors_ } []
  | calls {functor : F} {rest : List F} : s.place = .running (functor :: rest) →
      Advanced s ready { s with place := .inFunctor rest } [functor]
  | called {rest : List F} : s.place = .inFunctor rest →
      Advanced s ready { s with place := .running rest } []
  | done : s.place = .running [] →
      Advanced s ready { s with callingPendingFunctors_ := false, place := .check } []

theorem advanced_of_ok {s s' : EventLoop Tid F} {ready : List ActiveChannel}
    {output : List F} (hstep : s.advance ready = .ok (s', output)) :
    Advanced s ready s' output := by
  unfold advance at hstep
  split at hstep
  next hplace =>
    cases hstep
    exact .entry hplace
  next hplace =>
    cases hstep
    exact .tests hplace
  next hplace =>
    rw [ite_eq_ok] at hstep
    rcases hstep with ⟨hready, hresult⟩
    cases hresult
    exact .returns hplace hready
  next rest hplace =>
    cases hstep
    exact .reads hplace
  next rest hplace =>
    cases hstep
    exact .handles hplace
  next hplace =>
    cases hstep
    exact .handled hplace
  next hplace =>
    cases hstep
    exact .swaps hplace
  next functor rest hplace =>
    cases hstep
    exact .calls hplace
  next rest hplace =>
    cases hstep
    exact .called hplace
  next hplace =>
    cases hstep
    exact .done hplace
  next => cases hstep

theorem Advanced.inCall_eq {s s' : EventLoop Tid F} {ready : List ActiveChannel}
    {output : List F} (hadvanced : Advanced s ready s' output) :
    s'.inCall = s.inCall := by
  cases hadvanced <;> rfl

variable [DecidableEq Tid]

/-- One constructor for each way in which a step of a thread can go. -/
inductive Stepped (s : EventLoop Tid F) :
    LoopStep Tid F → EventLoop Tid F → List F → Prop
  | advance {ready : List ActiveChannel} {s' : EventLoop Tid F}
      {output : List F} :
      s.inCall .loopThread = .none → Advanced s ready s' output →
      Stepped s (.advance ready) s' output
  | push {caller : Caller Tid} {cb : F} :
      s.inCall caller = .none →
      (caller = .loopThread → s.place.inCallback) →
      Stepped s (.queueInLoop caller cb)
        ({ s with pendingFunctors_ := s.pendingFunctors_ ++ [cb] }.setCall caller
          .queueInLoop) []
  | wakes {caller : Caller Tid} :
      s.inCall caller = .queueInLoop →
      Stepped s (.queueReturns caller) (s.setCall caller .none).wakeup []
  | silent :
      s.inCall .loopThread = .queueInLoop → s.callingPendingFunctors_ = false →
      Stepped s (.queueReturns .loopThread) (s.setCall .loopThread .none) []
  | quit {caller : Caller Tid} :
      s.inCall caller = .none →
      (caller = .loopThread → s.place.mayQuit) →
      Stepped s (.quit caller)
        ({ s with quit_ := true }.setCall caller .quit) []
  | quitWakes :
      s.inCall .loopThread = .quit →
      Stepped s (.quitReturns .loopThread) (s.setCall .loopThread .none).wakeup []
  | quitSilent {t : Tid} :
      s.inCall (.other t) = .quit →
      Stepped s (.quitReturns (.other t)) (s.setCall (.other t) .none) []

theorem stepped_of_ok {s s' : EventLoop Tid F} {i : LoopStep Tid F}
    {output : List F} (hstep : s.step i = .ok (s', output)) :
    Stepped s i s' output := by
  cases i with
  | advance ready =>
      simp only [step] at hstep
      split at hstep
      next hcall => exact .advance hcall (advanced_of_ok hstep)
      next => cases hstep
  | queueInLoop caller cb =>
      obtain ⟨⟨hcall, hplace⟩, hresult⟩ := ite_eq_ok.mp hstep
      cases hresult
      exact .push hcall hplace
  | queueReturns caller =>
      simp only [step] at hstep
      split at hstep
      next hcall =>
        split at hstep
        next =>
          cases hstep
          exact .wakes hcall
        next hsilent =>
          cases hstep
          have hown : caller = .loopThread ∧ s.callingPendingFunctors_ = false := by
            simpa [setCall] using hsilent
          rcases hown with ⟨rfl, hcalling⟩
          exact .silent hcall hcalling
      next => cases hstep
  | quit caller =>
      obtain ⟨⟨hcall, hplace⟩, hresult⟩ := ite_eq_ok.mp hstep
      cases hresult
      exact .quit hcall hplace
  | quitReturns caller =>
      simp only [step] at hstep
      split at hstep
      next hcall =>
        cases caller with
        | loopThread =>
            cases hstep
            exact .quitWakes hcall
        | other t =>
            cases hstep
            exact .quitSilent hcall
      next => cases hstep

theorem setCall_other {s : EventLoop Tid F} {caller caller' : Caller Tid}
    {call : InCall} (hne : caller' ≠ caller) :
    (s.setCall caller call).inCall caller' = s.inCall caller' :=
  Function.update_of_ne hne _ _

@[simp] theorem setCall_self (s : EventLoop Tid F) (caller : Caller Tid)
    (call : InCall) : (s.setCall caller call).inCall caller = call :=
  Function.update_self _ _ _

end EventLoop

abbrev LoopCall (Tid F : Type) :=
  Call (EventLoop Tid F) (LoopStep Tid F) (List F)

def LoopStep.queued {Tid F : Type} : LoopStep Tid F → List F
  | .queueInLoop _ cb => [cb]
  | _ => []

end MyFileServer
