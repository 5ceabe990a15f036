import MyFileServer.Lib.Execution
import MyFileServer.Net.TcpServer

/-!
# The threads of the loops

`EventLoopThreadPool` makes its `EventLoopThread`s one after another, and each
of them makes a `Thread`.  The thread that owns the pool and the threads of the
loops take turns in any order.  A wait on `cond_` may end for any reason.  The
destructor reads `loop_` without `mutex_`, so that each of its accesses is a
step of its own, and so is what the thread does behind its last lock.
-/

namespace MyFileServer

open Execution

/-- Where the thread of a loop is. -/
inductive LoopThreadState
  | absent
  -- in the function of `Thread::start`, at `tid_` and at `sem_post`
  | starting
  | posting
  -- in `threadFunc`, at `callback_` and at the lock before `loop_ = &loop`
  | initialising
  | publishing
  -- in `EventLoop::loop`, at `quit_ = false`, at the test of `quit_` and behind it
  | entering
  | testing
  | polling
  -- at the lock before `loop_ = nullptr`, at its end, and at the end of `loop`
  | leaving
  | unlocking
  | unwinding
  | finished
  deriving DecidableEq, Repr

/-- An `EventLoopThread` with the members of its `thread_` and the `quit_` of
its loop; of `tid_` and `loop_`, whether they are set. -/
structure EventLoopThread where
  state : LoopThreadState := .absent
  tid_ : Bool := false
  sem : ℕ := 0
  loop_ : Bool := false
  quit_ : Bool := false
  /-- The calls of `callback_` that have returned. -/
  initialised : ℕ := 0
  deriving DecidableEq

/-- Where the thread that owns the pool is; the index is the one of the
`EventLoopThread` that it deals with. -/
inductive OwnerState
  | idle
  -- in `EventLoopThreadPool::start`
  | creating (i : ℕ)
  | semWaiting (i : ℕ)
  | locking (i : ℕ)
  | waiting (i : ℕ)
  | started
  -- in `~EventLoopThread`: at the test of `loop_`, at the pointer of the call,
  -- at `quit_ = true`, at `isInLoopThread` and in `join`
  | destroying (i : ℕ)
  | quitting (i : ℕ)
  | calling (i : ℕ)
  | checking (i : ℕ)
  | joining (i : ℕ)
  | destroyed
  deriving DecidableEq, Repr

/-- A loop is named by the index of its thread. -/
structure EventLoopThreadPool where
  numThreads_ : ℕ
  /-- Whether `start` gets a callback. -/
  callback_ : Bool
  owner : OwnerState := .idle
  threads_ : ℕ → EventLoopThread := fun _ => {}
  /-- `threads_.size()`. -/
  size : ℕ := 0
  loops_ : List ℕ := []
  next_ : ℕ := 0
  /-- The calls of the callback with `baseLoop_`. -/
  baseInitialised : ℕ := 0

inductive LoopThreadInput
  /-- The call of `EventLoopThreadPool::start`. -/
  | start
  | owner
  | thread (i : ℕ)
  /-- The owner's wait ends without a call of `notify_one`. -/
  | wake
  /-- Somebody else calls `quit` of a loop. -/
  | quit (i : ℕ)
  /-- The pool is destroyed. -/
  | destroy
  deriving DecidableEq, Repr

/-- A step that nobody can take, a call through a null pointer, or the use of
something that does not exist any more. -/
inductive LoopThreadStop
  | notEnabled
  | nullLoop
  | danglingLoop
  | danglingMutex
  deriving DecidableEq, Repr

/-- The loop is on the stack of its thread. -/
def LoopThreadState.hasLoop : LoopThreadState → Bool
  | .initialising | .publishing | .entering | .testing | .polling | .leaving | .unlocking
  | .unwinding => true
  | .absent | .starting | .posting | .finished => false

/-- The destructor is done with this `EventLoopThread`. -/
def OwnerState.hasDestroyed (i : ℕ) : OwnerState → Bool
  | .destroying k | .quitting k | .calling k | .checking k | .joining k => i < k
  | .destroyed => true
  | .idle | .creating _ | .semWaiting _ | .locking _ | .waiting _ | .started => false

namespace EventLoopThreadPool

def initial (numThreads : ℕ) (callback : Bool) : EventLoopThreadPool where
  numThreads_ := numThreads
  callback_ := callback

def set (pool : EventLoopThreadPool) (i : ℕ) (t : EventLoopThread) : EventLoopThreadPool :=
  { pool with threads_ := Function.update pool.threads_ i t }

def moveTo (pool : EventLoopThreadPool) (owner : OwnerState) : EventLoopThreadPool :=
  { pool with owner }

/-- `notify_one` on the condition variable of one `EventLoopThread`, on which
only the owner waits. -/
def notify (pool : EventLoopThreadPool) (i : ℕ) : EventLoopThreadPool :=
  if pool.owner = .waiting i then pool.moveTo (.locking i) else pool

/-- `Thread::start` and `threadFunc`. -/
def threadStep (pool : EventLoopThreadPool) (i : ℕ) :
    Except LoopThreadStop EventLoopThreadPool :=
  let t := pool.threads_ i
  match t.state with
  | .starting => .ok (pool.set i { t with tid_ := true, state := .posting })
  | .posting =>
      let state := if pool.callback_ then .initialising else .publishing
      .ok (pool.set i { t with sem := t.sem + 1, state })
  | .initialising =>
      .ok (pool.set i { t with initialised := t.initialised + 1, state := .publishing })
  | .publishing => .ok ((pool.set i { t with loop_ := true, state := .entering }).notify i)
  | .entering => .ok (pool.set i { t with quit_ := false, state := .testing })
  | .testing =>
      let state := if t.quit_ then .leaving else .polling
      .ok (pool.set i { t with state })
  | .polling => .ok (pool.set i { t with state := .testing })
  | .leaving => .ok (pool.set i { t with loop_ := false, state := .unlocking })
  | .unlocking =>
      if pool.owner.hasDestroyed i then .error .danglingMutex
      else .ok (pool.set i { t with state := .unwinding })
  | .unwinding => .ok (pool.set i { t with state := .finished })
  | .absent | .finished => .error .notEnabled

/-- `EventLoopThreadPool::start`, `Thread::start`, `startLoop` and
`~EventLoopThread`; the owner gets the lock when the thread does not hold it. -/
def ownerStep (pool : EventLoopThreadPool) : Except LoopThreadStop EventLoopThreadPool :=
  match pool.owner with
  | .creating i =>
      if i < pool.numThreads_ then
        .ok { (pool.set i { state := .starting }).moveTo (.semWaiting i) with
          size := pool.size + 1 }
      else if pool.numThreads_ = 0 ∧ pool.callback_ then
        .ok { pool.moveTo .started with baseInitialised := pool.baseInitialised + 1 }
      else .ok (pool.moveTo .started)
  | .semWaiting i =>
      let t := pool.threads_ i
      if t.sem = 0 then .error .notEnabled
      else .ok ((pool.set i { t with sem := t.sem - 1 }).moveTo (.locking i))
  | .locking i =>
      if (pool.threads_ i).state = .unlocking then .error .notEnabled
      else if (pool.threads_ i).loop_ then
        .ok { pool.moveTo (.creating (i + 1)) with loops_ := pool.loops_ ++ [i] }
      else .ok (pool.moveTo (.waiting i))
  | .destroying i =>
      if i < pool.size then
        if (pool.threads_ i).loop_ then .ok (pool.moveTo (.quitting i))
        else .ok (pool.moveTo (.destroying (i + 1)))
      else .ok (pool.moveTo .destroyed)
  | .quitting i =>
      if (pool.threads_ i).loop_ then .ok (pool.moveTo (.calling i)) else .error .nullLoop
  | .calling i =>
      let t := pool.threads_ i
      if t.state.hasLoop then .ok ((pool.set i { t with quit_ := true }).moveTo (.checking i))
      else .error .danglingLoop
  | .checking i =>
      if (pool.threads_ i).state.hasLoop then .ok (pool.moveTo (.joining i))
      else .error .danglingLoop
  | .joining i =>
      if (pool.threads_ i).state = .finished then .ok (pool.moveTo (.destroying (i + 1)))
      else .error .notEnabled
  | .idle | .waiting _ | .started | .destroyed => .error .notEnabled

def next (pool : EventLoopThreadPool) :
    LoopThreadInput → Except LoopThreadStop EventLoopThreadPool
  | .start =>
      if pool.owner = .idle then .ok (pool.moveTo (.creating 0)) else .error .notEnabled
  | .owner => pool.ownerStep
  | .thread i => pool.threadStep i
  | .wake =>
      match pool.owner with
      | .waiting i => .ok (pool.moveTo (.locking i))
      | _ => .error .notEnabled
  | .quit i =>
      let t := pool.threads_ i
      if t.state.hasLoop then .ok (pool.set i { t with quit_ := true })
      else .error .notEnabled
  | .destroy =>
      if pool.owner = .idle ∨ pool.owner = .started then .ok (pool.moveTo (.destroying 0))
      else .error .notEnabled

def step (pool : EventLoopThreadPool) (input : LoopThreadInput) :
    Except LoopThreadStop (EventLoopThreadPool × Unit) :=
  (fun pool => (pool, ())) <$> pool.next input

/-- The loop of the next connection and the pool after it; `none` is
`baseLoop_`. -/
def getNextLoop (pool : EventLoopThreadPool) : Option ℕ × EventLoopThreadPool :=
  match pool.loops_ with
  | [] => (none, pool)
  | _ :: _ =>
      (pool.loops_[pool.next_]?,
        { pool with next_ :=
            if pool.loops_.length ≤ pool.next_ + 1 then 0 else pool.next_ + 1 })

end EventLoopThreadPool

end MyFileServer
