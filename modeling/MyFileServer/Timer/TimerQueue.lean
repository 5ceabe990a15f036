import MyFileServer.Base.Timestamp
import MyFileServer.Lib.Execution
import MyFileServer.Lib.SortedSet
import Mathlib.Data.Prod.Lex

/-!
# The timer queue

`TimerQueue` with the `Timer` objects that its entries point to.  A pointer is
an address, and an address is used for one object only.  `clock k` is what the
k-th call of `Timestamp::now()` returns; nothing is assumed about it.  What a
callback does to the queue is the list of timers that it adds.
-/

namespace MyFileServer

open Execution

/-- `std::pair<Timestamp, Timer*>`, compared by the first component and then
by the second. -/
structure Entry where
  first : Timestamp
  second : ℕ
  deriving DecidableEq, Repr

namespace Entry

def key (e : Entry) : Timestamp ×ₗ ℕ := toLex (e.first, e.second)

theorem key_injective : Function.Injective key := by
  rintro ⟨t, a⟩ ⟨t', a'⟩ hkey
  have hpair : (t, a) = (t', a') := toLex.injective hkey
  rw [Prod.mk.injEq] at hpair
  rw [hpair.1, hpair.2]

instance : LinearOrder Entry := LinearOrder.lift' key key_injective

theorem lt_iff {e e' : Entry} :
    e < e' ↔ e.first < e'.first ∨ e.first = e'.first ∧ e.second < e'.second := by
  have hkey : e < e' ↔ e.key < e'.key := Iff.rfl
  rw [hkey, Prod.Lex.lt_iff]
  rfl

theorem first_le {e e' : Entry} (hle : e ≤ e') : e.first ≤ e'.first := by
  rcases lt_or_eq_of_le hle with hlt | rfl
  · rcases lt_iff.mp hlt with hfirst | hfirst
    · exact hfirst.le
    · exact hfirst.1.le
  · exact le_rfl

end Entry

def UINTPTR_MAX : ℕ := 2 ^ 64 - 1

/-- `interval_` is a `double`; the code uses whether it is positive, which is
`repeat_`, and its value in microseconds as `addTime` converts it. -/
structure Timer where
  expiration_ : Timestamp
  interval_ : ℤ
  repeat_ : Bool
  deriving DecidableEq, Repr

inductive Cell
  | fresh
  | live (timer : Timer)
  | freed
  deriving DecidableEq

/-- A signed overflow, a use of an object that is not there, or an allocation
that `new` cannot make. -/
inductive TimerFault
  | overflow
  | dangling
  | refused
  deriving DecidableEq

structure Timespec where
  tv_sec : ℤ
  tv_nsec : ℤ
  deriving DecidableEq

def Timespec.microSeconds (ts : Timespec) : ℤ :=
  ts.tv_sec * 1000000 + ts.tv_nsec / 1000

/-- The last `timerfd_settime`, with the reading of the clock that it is
relative to. -/
structure Arming where
  now : Timestamp
  it_value : Timespec
  deriving DecidableEq

/-- `timerfd_` is `none` when the descriptor has never been armed, or has
fired since. -/
structure TimerQueue where
  timers_ : SortedSet Entry := .empty
  cell : ℕ → Cell := fun _ => .fresh
  timerfd_ : Option Arming := none
  readings : ℕ := 0

structure NewTimer where
  address : ℕ
  timer : Timer
  deriving DecidableEq

inductive TimerEvent
  | added (new : NewTimer)
  | ran (address : ℕ)
  deriving DecidableEq

/-- `handleRead` is called when the descriptor has fired.  An event that was
reported before the descriptor was armed again is handled without that.
`callbacks` gives the timers that the callback at an address adds. -/
inductive TimerStep
  | addTimer (new : NewTimer)
  | handleRead (fired : Bool) (callbacks : ℕ → List NewTimer)

def int64 (value : ℤ) : Except TimerFault ℤ :=
  if -2 ^ 63 ≤ value ∧ value < 2 ^ 63 then .ok value else .error .overflow

def addTime (timestamp : Timestamp) (delta : ℤ) : Except TimerFault Timestamp := do
  return ⟨← int64 (timestamp.microSecondsSinceEpoch_ + delta)⟩

def Timer.restart (timer : Timer) (now : Timestamp) : Except TimerFault Timer :=
  if timer.repeat_ then do
    return { timer with expiration_ := ← addTime now timer.interval_ }
  else
    return { timer with expiration_ := {} }

namespace TimerQueue

def deref (q : TimerQueue) (address : ℕ) : Except TimerFault Timer :=
  match q.cell address with
  | .live timer => .ok timer
  | _ => .error .dangling

def setCell (q : TimerQueue) (address : ℕ) (cell : Cell) : TimerQueue :=
  { q with cell := Function.update q.cell address cell }

variable (clock : ℕ → Timestamp)

def now (q : TimerQueue) : Timestamp × TimerQueue :=
  (clock q.readings, { q with readings := q.readings + 1 })

def timespecOf (microSecondDif : ℤ) : Timespec where
  tv_sec := microSecondDif / Timestamp.kMicroSecondsPerSecond
  tv_nsec := microSecondDif % Timestamp.kMicroSecondsPerSecond * 1000

def resetTimerfd (q : TimerQueue) (expiration : Timestamp) :
    Except TimerFault TimerQueue := do
  let (now, q) := q.now clock
  let microSecondDif ←
    int64 (expiration.microSecondsSinceEpoch_ - now.microSecondsSinceEpoch_)
  let microSecondDif := if microSecondDif < 100 then 100 else microSecondDif
  return { q with timerfd_ := some ⟨now, timespecOf microSecondDif⟩ }

def insert (q : TimerQueue) (timer : ℕ) : Except TimerFault (Bool × TimerQueue) := do
  let when_ := (← q.deref timer).expiration_
  let earliestChanged :=
    match q.timers_.first with
    | none => true
    | some it => when_ < it.first
  return (earliestChanged, { q with timers_ := q.timers_.insert ⟨when_, timer⟩ })

def addTimerInLoop (q : TimerQueue) (timer : ℕ) : Except TimerFault TimerQueue := do
  let (earliestChanged, q) ← q.insert timer
  if earliestChanged then
    q.resetTimerfd clock (← q.deref timer).expiration_
  else
    return q

def addTimer (q : TimerQueue) (new : NewTimer) : Except TimerFault TimerQueue :=
  if q.cell new.address = .fresh ∧ new.address < UINTPTR_MAX then
    (q.setCell new.address (.live new.timer)).addTimerInLoop clock new.address
  else
    .error .refused

def getExpired (q : TimerQueue) (now : Timestamp) : List Entry × TimerQueue :=
  let sentry : Entry := ⟨now, UINTPTR_MAX⟩
  (q.timers_.below sentry, { q with timers_ := q.timers_.eraseBelow sentry })

def addTimers (q : TimerQueue) : List NewTimer → Except TimerFault TimerQueue
  | [] => .ok q
  | new :: rest => do (← q.addTimer clock new).addTimers rest

def runExpired (callbacks : ℕ → List NewTimer) (q : TimerQueue) :
    List Entry → Except TimerFault TimerQueue
  | [] => .ok q
  | it :: expired => do
      let _ ← q.deref it.second
      let q ← q.addTimers clock (callbacks it.second)
      q.runExpired callbacks expired

def restartOrDelete (q : TimerQueue) (it : Entry) : Except TimerFault TimerQueue := do
  let timer ← q.deref it.second
  if timer.repeat_ then
    let (now, q) := q.now clock
    let timer ← timer.restart now
    let inserted ← (q.setCell it.second (.live timer)).insert it.second
    return inserted.2
  else
    return q.setCell it.second .freed

def rearm (q : TimerQueue) : Except TimerFault TimerQueue :=
  match q.timers_.first with
  | none => .ok q
  | some it => do q.resetTimerfd clock (← q.deref it.second).expiration_

/-- One iteration of the loop in `reset`. -/
def resetEntry (q : TimerQueue) (it : Entry) : Except TimerFault TimerQueue := do
  (← q.restartOrDelete clock it).rearm clock

def reset (q : TimerQueue) : List Entry → Except TimerFault TimerQueue
  | [] => .ok q
  | it :: expired => do (← q.resetEntry clock it).reset expired

def events (callbacks : ℕ → List NewTimer) (expired : List Entry) : List TimerEvent :=
  expired.flatMap fun it => .ran it.second :: (callbacks it.second).map .added

def handleRead (fired : Bool) (callbacks : ℕ → List NewTimer) (q : TimerQueue) :
    Except TimerFault (TimerQueue × List TimerEvent) := do
  let (now, q) := q.now clock
  let q := { q with timerfd_ := if fired then none else q.timerfd_ }
  let (expired, q) := q.getExpired now
  let q ← q.runExpired clock callbacks expired
  let q ← q.reset clock expired
  return (q, events callbacks expired)

def step (q : TimerQueue) : TimerStep → Except TimerFault (TimerQueue × List TimerEvent)
  | .addTimer new => do return (← q.addTimer clock new, [.added new])
  | .handleRead fired callbacks => q.handleRead clock fired callbacks

end TimerQueue

abbrev TimerCall := Call TimerQueue TimerStep (List TimerEvent)

end MyFileServer
