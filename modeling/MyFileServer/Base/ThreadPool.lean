import MyFileServer.Lib.Execution
import Mathlib.Algebra.BigOperators.Fin
import Mathlib.Data.List.Infix

/-!
# The thread pool

Every critical section on `mutex_` is one step of a worker or of a caller, and
so are the parts of `start`, which do not take the lock.  A wait on `cond_` may
end for any reason; `notify_one` chooses any worker that waits.  The pool keeps
a record of the tasks that were added, taken from the queue and called.
-/

namespace MyFileServer

open Execution

/-- A `ThreadFunction`; `none` is the one that compares equal to `nullptr`. -/
abbrev Task (α : Type) := Option α

/-- Where the thread of a worker is.  A task is known by its number in the
order of removal from the queue. -/
inductive WorkerState (α : Type)
  | absent
  /-- In `threadInitCallback_`. -/
  | starting
  /-- About to test the queue with the lock held. -/
  | ready
  /-- In `cond_.wait`. -/
  | waiting
  | holding (k : ℕ) (task : Task α)
  /-- In the call of a task. -/
  | running (k : ℕ)
  | exited
  deriving DecidableEq

/-- `threadSize_` is `n`. -/
structure ThreadPool (n : ℕ) (α : Type) where
  queue_ : List (Task α) := []
  running_ : Bool := false
  started : Bool := false
  /-- `threads_.size()`. -/
  threads_ : ℕ := 0
  workers : Fin n → WorkerState α := fun _ => .absent
  added : List (Task α) := []
  taken : List (Fin n × Task α) := []
  called : List (Fin n × ℕ) := []

inductive WorkInput (n : ℕ) (α : Type)
  /-- With the worker that `notify_one` wakes. -/
  | add (task : Task α) (woken : Option (Fin n))
  | start
  /-- One round of the loop in `start`. -/
  | spawn
  | stop
  /-- The callback of a new thread returns. -/
  | initialised (worker : Fin n)
  /-- The loops of `runInThread` up to the next release of the lock. -/
  | lock (worker : Fin n)
  /-- A wait ends without a call of `notify`. -/
  | wake (worker : Fin n)
  | call (worker : Fin n)
  | finish (worker : Fin n)
  deriving DecidableEq

/-- No thread can take the step. -/
inductive WorkStop
  | notEnabled
  deriving DecidableEq, Repr

namespace ThreadPool

variable {n : ℕ} {α : Type}

def moveTo (pool : ThreadPool n α) (worker : Fin n) (state : WorkerState α) :
    ThreadPool n α :=
  { pool with workers := Function.update pool.workers worker state }

def isWaiting (pool : ThreadPool n α) (worker : Fin n) : Bool :=
  match pool.workers worker with
  | .waiting => true
  | _ => false

def pushBack (pool : ThreadPool n α) (task : Task α) : ThreadPool n α :=
  { pool with
    queue_ := pool.queue_ ++ [task]
    added := pool.added ++ [task] }

/-- The first thread that is not there yet. -/
def spawnNext (pool : ThreadPool n α) (h : pool.threads_ < n) : ThreadPool n α :=
  { pool.moveTo ⟨pool.threads_, h⟩ .starting with threads_ := pool.threads_ + 1 }

def notifyAll (pool : ThreadPool n α) : ThreadPool n α :=
  { pool with workers := fun worker =>
      if pool.isWaiting worker then .ready else pool.workers worker }

/-- With the lock held: the worker takes a task, goes to wait or leaves. -/
def testQueue (pool : ThreadPool n α) (worker : Fin n) : ThreadPool n α :=
  match pool.queue_ with
  | [] =>
      if pool.running_ then pool.moveTo worker .waiting
      else pool.moveTo worker .exited
  | task :: rest =>
      { pool.moveTo worker (.holding pool.taken.length task) with
        queue_ := rest
        taken := pool.taken ++ [(worker, task)] }

/-- An empty function is not called. -/
def callTask (pool : ThreadPool n α) (worker : Fin n) :
    Except WorkStop (ThreadPool n α) :=
  match pool.workers worker with
  | .holding k (some _) =>
      .ok { pool.moveTo worker (.running k) with
        called := pool.called ++ [(worker, k)] }
  | .holding _ none => .ok (pool.moveTo worker .ready)
  | _ => .error .notEnabled

def next (pool : ThreadPool n α) : WorkInput n α → Except WorkStop (ThreadPool n α)
  | .add task none =>
      if ∀ worker, pool.isWaiting worker = false then .ok (pool.pushBack task)
      else .error .notEnabled
  | .add task (some worker) =>
      if pool.isWaiting worker then .ok ((pool.pushBack task).moveTo worker .ready)
      else .error .notEnabled
  | .start =>
      if pool.started then .error .notEnabled
      else .ok { pool with running_ := true, started := true }
  | .spawn =>
      if h : pool.threads_ < n then
        if pool.started then .ok (pool.spawnNext h) else .error .notEnabled
      else .error .notEnabled
  | .stop => .ok { pool.notifyAll with running_ := false }
  | .initialised worker =>
      match pool.workers worker with
      | .starting => .ok (pool.moveTo worker .ready)
      | _ => .error .notEnabled
  | .lock worker =>
      match pool.workers worker with
      | .ready => .ok (pool.testQueue worker)
      | _ => .error .notEnabled
  | .wake worker =>
      match pool.workers worker with
      | .waiting => .ok (pool.moveTo worker .ready)
      | _ => .error .notEnabled
  | .call worker => pool.callTask worker
  | .finish worker =>
      match pool.workers worker with
      | .running _ => .ok (pool.moveTo worker .ready)
      | _ => .error .notEnabled

def step (pool : ThreadPool n α) (input : WorkInput n α) :
    Except WorkStop (ThreadPool n α × Unit) :=
  (fun pool => (pool, ())) <$> pool.next input

theorem step_eq_ok {pool pool' : ThreadPool n α} {input : WorkInput n α} {output : Unit} :
    step pool input = .ok (pool', output) ↔ pool.next input = .ok pool' := by
  unfold step
  cases pool.next input with
  | error stop => exact iff_of_false (fun h => nomatch h) fun h => nomatch h
  | ok result => simp [Functor.map, Except.map]

/-! ## What a step can do -/

/-- The worker goes back to the lock without anything else. -/
inductive Resumes (pool : ThreadPool n α) : WorkInput n α → Fin n → Prop
  | initialised {worker : Fin n} :
      pool.workers worker = .starting → Resumes pool (.initialised worker) worker
  | wake {worker : Fin n} :
      pool.workers worker = .waiting → Resumes pool (.wake worker) worker
  | skip {worker : Fin n} {k : ℕ} :
      pool.workers worker = .holding k none → Resumes pool (.call worker) worker
  | finish {worker : Fin n} {k : ℕ} :
      pool.workers worker = .running k → Resumes pool (.finish worker) worker

inductive Transition (pool : ThreadPool n α) : WorkInput n α → ThreadPool n α → Prop
  | add {task : Task α} : Transition pool (.add task none) (pool.pushBack task)
  | addAndWake {task : Task α} {worker : Fin n} :
      pool.workers worker = .waiting →
      Transition pool (.add task (some worker))
        ((pool.pushBack task).moveTo worker .ready)
  | start : pool.started = false →
      Transition pool .start { pool with running_ := true, started := true }
  | spawn (h : pool.threads_ < n) : pool.started = true →
      Transition pool .spawn (pool.spawnNext h)
  | stop : Transition pool .stop { pool.notifyAll with running_ := false }
  | resume {input : WorkInput n α} {worker : Fin n} : Resumes pool input worker →
      Transition pool input (pool.moveTo worker .ready)
  | sleep {worker : Fin n} : pool.workers worker = .ready → pool.queue_ = [] →
      pool.running_ = true →
      Transition pool (.lock worker) (pool.moveTo worker .waiting)
  | leave {worker : Fin n} : pool.workers worker = .ready → pool.queue_ = [] →
      pool.running_ = false →
      Transition pool (.lock worker) (pool.moveTo worker .exited)
  | take {worker : Fin n} {task : Task α} {rest : List (Task α)} :
      pool.workers worker = .ready → pool.queue_ = task :: rest →
      Transition pool (.lock worker)
        { pool.moveTo worker (.holding pool.taken.length task) with
          queue_ := rest
          taken := pool.taken ++ [(worker, task)] }
  | call {worker : Fin n} {k : ℕ} {a : α} : pool.workers worker = .holding k (some a) →
      Transition pool (.call worker)
        { pool.moveTo worker (.running k) with
          called := pool.called ++ [(worker, k)] }

theorem isWaiting_iff {pool : ThreadPool n α} {worker : Fin n} :
    pool.isWaiting worker = true ↔ pool.workers worker = .waiting := by
  unfold isWaiting
  cases pool.workers worker <;> simp

theorem transition_of_next {pool pool' : ThreadPool n α} {input : WorkInput n α}
    (h : pool.next input = .ok pool') : Transition pool input pool' := by
  cases input with
  | add task woken =>
      cases woken with
      | none =>
          simp only [next] at h
          split at h
          · cases h
            exact .add
          · cases h
      | some worker =>
          simp only [next] at h
          split at h
          next hwaiting =>
            cases h
            exact .addAndWake (isWaiting_iff.mp hwaiting)
          next => cases h
  | start =>
      simp only [next] at h
      split at h
      next => cases h
      next hstarted =>
        cases h
        exact .start (Bool.not_eq_true _ ▸ hstarted)
  | spawn =>
      simp only [next] at h
      split at h
      next hsize =>
        split at h
        next hstarted =>
          cases h
          exact .spawn hsize hstarted
        next => cases h
      next => cases h
  | stop =>
      cases h
      exact .stop
  | initialised worker =>
      simp only [next] at h
      split at h
      next hstate =>
        cases h
        exact .resume (.initialised hstate)
      next => cases h
  | lock worker =>
      simp only [next] at h
      split at h
      next hstate =>
        cases h
        unfold testQueue
        split
        next hqueue =>
          cases hrunning : pool.running_ with
          | true => exact .sleep hstate hqueue hrunning
          | false => exact .leave hstate hqueue hrunning
        next hqueue => exact .take hstate hqueue
      next => cases h
  | wake worker =>
      simp only [next] at h
      split at h
      next hstate =>
        cases h
        exact .resume (.wake hstate)
      next => cases h
  | call worker =>
      simp only [next, callTask] at h
      split at h
      next hstate =>
        cases h
        exact .call hstate
      next hstate =>
        cases h
        exact .resume (.skip hstate)
      next => cases h
  | finish worker =>
      simp only [next] at h
      split at h
      next hstate =>
        cases h
        exact .resume (.finish hstate)
      next => cases h

@[simp] theorem moveTo_queue_ (pool : ThreadPool n α) (worker : Fin n)
    (state : WorkerState α) : (pool.moveTo worker state).queue_ = pool.queue_ := rfl

@[simp] theorem moveTo_running_ (pool : ThreadPool n α) (worker : Fin n)
    (state : WorkerState α) : (pool.moveTo worker state).running_ = pool.running_ := rfl

@[simp] theorem moveTo_started (pool : ThreadPool n α) (worker : Fin n)
    (state : WorkerState α) : (pool.moveTo worker state).started = pool.started := rfl

@[simp] theorem moveTo_threads_ (pool : ThreadPool n α) (worker : Fin n)
    (state : WorkerState α) : (pool.moveTo worker state).threads_ = pool.threads_ := rfl

@[simp] theorem moveTo_added (pool : ThreadPool n α) (worker : Fin n)
    (state : WorkerState α) : (pool.moveTo worker state).added = pool.added := rfl

@[simp] theorem moveTo_taken (pool : ThreadPool n α) (worker : Fin n)
    (state : WorkerState α) : (pool.moveTo worker state).taken = pool.taken := rfl

@[simp] theorem moveTo_called (pool : ThreadPool n α) (worker : Fin n)
    (state : WorkerState α) : (pool.moveTo worker state).called = pool.called := rfl

theorem moveTo_self (pool : ThreadPool n α) (worker : Fin n) (state : WorkerState α) :
    (pool.moveTo worker state).workers worker = state :=
  Function.update_self _ _ _

theorem moveTo_of_ne {pool : ThreadPool n α} {worker other : Fin n}
    {state : WorkerState α} (hother : other ≠ worker) :
    (pool.moveTo worker state).workers other = pool.workers other :=
  Function.update_of_ne hother _ _

/-- A worker in another state than the one of the move is another worker. -/
theorem of_moveTo {pool : ThreadPool n α} {worker other : Fin n}
    {state state' : WorkerState α} (hstate : state' ≠ state)
    (hother : (pool.moveTo worker state).workers other = state') :
    other ≠ worker ∧ pool.workers other = state' := by
  have hne : other ≠ worker := by
    rintro rfl
    exact hstate (hother.symm.trans (moveTo_self _ _ _))
  exact ⟨hne, (moveTo_of_ne hne).symm.trans hother⟩

end ThreadPool

end MyFileServer
