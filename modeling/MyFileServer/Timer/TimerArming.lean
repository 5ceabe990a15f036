import MyFileServer.Timer.TimerOperations

/-!
# The timer descriptor

The descriptor fires once for each time it is armed.  `reset` arms it again
only while it walks through the expired entries, so a call of `handleRead`
whose clock has not come to the earliest timer leaves it unarmed.
-/

namespace MyFileServer

open Execution

namespace TimerQueue

variable {clock : ℕ → Timestamp}

/-- The clock that `handleRead` reads has come to the earliest timer. -/
def ClockReached (clock : ℕ → Timestamp) (q : TimerQueue) : TimerStep → Prop
  | .addTimer _ => True
  | .handleRead fired _ =>
      fired = true → ∀ e ∈ q.timers_.first, e.first ≤ clock q.readings

instance (clock : ℕ → Timestamp) (q : TimerQueue) (i : TimerStep) :
    Decidable (q.ClockReached clock i) :=
  match i with
  | .addTimer _ => .isTrue trivial
  | .handleRead _ _ => inferInstanceAs (Decidable (_ → _))

theorem due_eq_nil_iff {q : TimerQueue} (hq : QueueInv [] q) :
    q.due clock = [] ↔ ∀ e ∈ q.timers_.first, clock q.readings < e.first := by
  rw [List.eq_nil_iff_forall_not_mem]
  constructor
  · intro hnone e hfirst
    have he := (SortedSet.first_eq_some.mp hfirst).1
    rw [← not_le, ← hq.entry_lt_iff he]
    exact fun hlt => hnone e (SortedSet.mem_below.mpr ⟨he, hlt⟩)
  · intro hall e hdue
    rcases SortedSet.mem_below.mp hdue with ⟨he, hlt⟩
    rw [hq.entry_lt_iff he] at hlt
    cases hfirst : q.timers_.first with
    | none => exact SortedSet.first_eq_none.mp hfirst e he
    | some e' =>
        have hle := Entry.first_le ((SortedSet.first_eq_some.mp hfirst).2 e he)
        exact absurd (hle.trans hlt) (not_le.mpr (hall e' hfirst))

theorem first_le_of_due {q : TimerQueue} (hq : QueueInv [] q)
    (hdue : q.due clock ≠ []) : ∀ e ∈ q.timers_.first, e.first ≤ clock q.readings := by
  intro e hfirst
  by_contra hlate
  apply hdue
  refine (due_eq_nil_iff hq).mpr ?_
  intro e' hfirst'
  obtain rfl : e = e' := Option.some.inj (hfirst.symm.trans hfirst')
  exact not_le.mp hlate

/-- A call of `handleRead` leaves the descriptor armed exactly when the clock
has come to the earliest timer. -/
theorem handleRead_armed_iff {q q' : TimerQueue} {fired : Bool}
    {callbacks : ℕ → List NewTimer} {output : List TimerEvent}
    (hq : QueueInv [] q) (harmed : q.Armed)
    (hcall : q.handleRead clock fired callbacks = .ok (q', output)) :
    q'.Armed ↔ q.ClockReached clock (.handleRead fired callbacks) := by
  have hhandled := (handleRead_ends hq fired callbacks).of_eq_ok hcall
  by_cases hdue : q.due clock = []
  · rcases hhandled.idle hdue with ⟨htimers, hfd⟩
    constructor
    · intro harmed' hfired e hfirst
      rw [← htimers] at hfirst
      rcases harmed' e hfirst with ⟨arming, hsome, _⟩
      rw [hfd, if_pos hfired] at hsome
      cases hsome
    · intro hclock e hfirst
      rw [htimers] at hfirst
      cases fired with
      | true =>
          have hearly := (due_eq_nil_iff hq).mp hdue e hfirst
          exact absurd (hclock rfl e hfirst) (not_le.mpr hearly)
      | false =>
          rcases harmed e hfirst with ⟨arming, hsome, hdif⟩
          exact ⟨arming, hfd.trans hsome, hdif⟩
  · exact iff_of_true (hhandled.armed hdue) fun _ => first_le_of_due hq hdue

theorem step_armed {q q' : TimerQueue} {i : TimerStep} {output : List TimerEvent}
    (hq : QueueInv [] q ∧ q.Armed) (hclock : q.ClockReached clock i)
    (hstep : q.step clock i = .ok (q', output)) : QueueInv [] q' ∧ q'.Armed := by
  cases i with
  | addTimer new =>
      rcases bind_eq_ok.mp hstep with ⟨next, hadd, hresult⟩
      cases hresult
      rcases (addTimer_ends hq.1 new).of_eq_ok hadd with ⟨hinv, _, harmed⟩
      exact ⟨hinv, harmed hq.2⟩
  | handleRead fired callbacks =>
      exact ⟨((handleRead_ends hq.1 fired callbacks).of_eq_ok hstep).inv,
        (handleRead_armed_iff hq.1 hq.2 hstep).mpr hclock⟩

theorem start_armed : ({} : TimerQueue).Armed := by
  intro e hfirst
  cases hfirst

/-- In every run in which the clock of each `handleRead` has come to the
earliest timer, the descriptor is armed for it between any two calls. -/
theorem timerfd_stays_armed {steps : List TimerStep} {q : TimerQueue}
    {calls : List TimerCall} (hrun : run (step clock) {} steps = .ok (q, calls))
    (hclock : ∀ call ∈ calls, call.pre.ClockReached clock call.input) :
    q.Armed ∧ ∀ call ∈ calls, call.pre.Armed := by
  have hinv := run_invariant (fun _ _ _ _ hq hclock hstep => step_armed hq hclock hstep)
    hrun ⟨start_inv, start_armed⟩ hclock
  exact ⟨hinv.1.2, fun call hcall => (hinv.2 call hcall).2⟩

/-- A clock that gains 999 microseconds between two readings. -/
def slowClock (k : ℕ) : Timestamp := ⟨999 * k⟩

def oneTimer (expiration : ℤ) : List TimerStep :=
  [.addTimer ⟨1, ⟨⟨expiration⟩, 0, false⟩⟩,
    .handleRead true fun _ => [⟨2, ⟨⟨5000⟩, 0, false⟩⟩]]

theorem timerfd_stays_armed_at_999 :
    ∃ q calls, run (step slowClock) {} (oneTimer 999) = .ok (q, calls) ∧
      q.Armed ∧ ∀ call ∈ calls, call.pre.Armed := by
  have hrun : ∃ q calls, run (step slowClock) {} (oneTimer 999) = .ok (q, calls) ∧
      ∀ call ∈ calls, call.pre.ClockReached slowClock call.input :=
    ⟨_, _, rfl, by decide⟩
  rcases hrun with ⟨q, calls, hrun, hclock⟩
  exact ⟨q, calls, hrun, timerfd_stays_armed hrun hclock⟩

/-- The descriptor is armed for the 1000 microseconds that are left and fires;
the clock then reads 999. -/
theorem timerfd_left_unarmed :
    ∃ q calls, run (step slowClock) {} (oneTimer 1000) = .ok (q, calls) ∧
      q.timers_.elems = [⟨⟨1000⟩, 1⟩] ∧ q.timerfd_ = none ∧ ¬ q.Armed := by
  refine ⟨_, _, rfl, rfl, rfl, ?_⟩
  intro harmed
  rcases harmed _ rfl with ⟨arming, hfd, _⟩
  cases hfd

end TimerQueue

end MyFileServer
