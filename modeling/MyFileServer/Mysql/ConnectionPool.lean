import MyFileServer.Base.Runtime
import Mathlib.Logic.Function.Basic

/-!
# The pool of database connections

`ConnectionPool` hands out connections of a queue and takes them back, while
one thread produces connections and one deletes those that stay idle.  Every
critical section on `mutex_` is one step.  A wait on `cond_` may end for any
reason, so a thread that waits may test the queue again at any time.
-/

namespace MyFileServer

open Execution

/-- Why a step has no result: no thread can take it, or the program has no
defined behaviour. -/
inductive PoolStop
  | notEnabled
  | emptyQueue
  | deletedConnection
  | intOverflow
  deriving DecidableEq, Repr

structure PoolConfig where
  minSize_ : ℤ
  maxSize_ : ℤ
  maxIdleTime_ : ℤ
  deriving DecidableEq, Repr

/-- The pool, and around it the connections that exist with their
`m_alivetime`, the callers that wait in `getConnection` and the connections
that callers hold.  A connection is named by its address. -/
structure ConnectionPool (Caller Conn : Type) where
  connectionQueue_ : List Conn
  currentSize_ : ℤ
  aliveTime : Conn → ℤ
  heap : List Conn
  waiting : List Caller
  lent : List (Caller × Conn)

inductive PoolInput (Caller Conn : Type)
  | getConnection (caller : Caller)
  /-- The wait of the caller ends. -/
  | wake (caller : Caller)
  /-- The last `shared_ptr` to the connection goes. -/
  | release (caller : Caller) (conn : Conn) (now : ℤ)
  /-- The address that `new` returns, if the producer creates a connection. -/
  | produce (fresh : Conn) (now : ℤ)
  /-- The clock at the time a connection is looked at. -/
  | recycle (now : Conn → ℤ)

inductive PoolEvent (Caller Conn : Type)
  | created (conn : Conn)
  | deleted (conn : Conn)
  | lent (caller : Caller) (conn : Conn)
  | returned (caller : Caller) (conn : Conn)
  deriving DecidableEq

namespace ConnectionPool

/-- `currentSize_++` on an `int`. -/
def increment (size : ℤ) : Except PoolStop ℤ :=
  if size < 2 ^ 31 - 1 then .ok (size + 1) else .error .intOverflow

def decrement (size : ℤ) : Except PoolStop ℤ :=
  if -2 ^ 31 < size then .ok (size - 1) else .error .intOverflow

variable {Caller Conn : Type} [DecidableEq Conn]

/-- `refreshAliveTime` and `getAliveTime`, which counts in milliseconds. -/
def refreshAliveTime (pool : ConnectionPool Caller Conn) (conn : Conn) (now : ℤ) :
    ConnectionPool Caller Conn :=
  { pool with aliveTime := Function.update pool.aliveTime conn now }

omit [DecidableEq Conn] in
def getAliveTime (pool : ConnectionPool Caller Conn) (conn : Conn) (now : ℤ) : ℤ :=
  (now - pool.aliveTime conn).tdiv 1000000

/-- The address that `new` returns is not in use. -/
def addConnection (pool : ConnectionPool Caller Conn) (fresh : Conn) (now : ℤ) :
    Except PoolStop (ConnectionPool Caller Conn) :=
  if fresh ∈ pool.heap then .error .notEnabled
  else do
    let pool := { pool with heap := fresh :: pool.heap }.refreshAliveTime fresh now
    let size ← increment pool.currentSize_
    return { pool with
      connectionQueue_ := pool.connectionQueue_ ++ [fresh]
      currentSize_ := size }

/-- The two statements of both callers of `addConnection`. -/
def addAndCount (pool : ConnectionPool Caller Conn) (fresh : Conn) (now : ℤ) :
    Except PoolStop (ConnectionPool Caller Conn) := do
  let pool ← pool.addConnection fresh now
  let size ← increment pool.currentSize_
  return { pool with currentSize_ := size }

omit [DecidableEq Conn] in
def empty (aliveTime : Conn → ℤ) : ConnectionPool Caller Conn where
  connectionQueue_ := []
  currentSize_ := 0
  aliveTime := aliveTime
  heap := []
  waiting := []
  lent := []

/-- The constructor; `created i` is what `new` and the clock return in round
`i`.  The pool is a static object, so `currentSize_` starts at zero. -/
def construct (cfg : PoolConfig) (aliveTime : Conn → ℤ) (created : ℕ → Conn × ℤ) :
    Except PoolStop (ConnectionPool Caller Conn) :=
  (List.range cfg.minSize_.toNat).foldlM
    (fun pool i => pool.addAndCount (created i).1 (created i).2) (empty aliveTime)

/-- `getConnection` once it holds the lock, on entry or after a wait. -/
def takeOrWait (pool : ConnectionPool Caller Conn) (caller : Caller) :
    Except PoolStop (ConnectionPool Caller Conn × List (PoolEvent Caller Conn)) :=
  if pool.connectionQueue_.isEmpty then
    .ok ({ pool with waiting := caller :: pool.waiting }, [])
  else
    match pool.connectionQueue_ with
    | [] => .error .emptyQueue
    | conn :: rest =>
        .ok ({ pool with
            connectionQueue_ := rest
            lent := (caller, conn) :: pool.lent },
          [.lent caller conn])

/-- The deleter of the `shared_ptr`. -/
def giveBack [DecidableEq Caller] (pool : ConnectionPool Caller Conn) (caller : Caller)
    (conn : Conn) (now : ℤ) :
    Except PoolStop (ConnectionPool Caller Conn × List (PoolEvent Caller Conn)) :=
  if conn ∈ pool.heap then
    let pool := pool.refreshAliveTime conn now
    .ok ({ pool with
        connectionQueue_ := pool.connectionQueue_ ++ [conn]
        lent := pool.lent.erase (caller, conn) },
      [.returned caller conn])
  else .error .deletedConnection

/-- One round of `produceConnection`, up to the next release of the lock. -/
def produceConnection (cfg : PoolConfig) (pool : ConnectionPool Caller Conn)
    (fresh : Conn) (now : ℤ) :
    Except PoolStop (ConnectionPool Caller Conn × List (PoolEvent Caller Conn)) :=
  if !pool.connectionQueue_.isEmpty then .ok (pool, [])
  else if pool.currentSize_ < cfg.maxSize_ then do
    let pool ← pool.addAndCount fresh now
    return (pool, [.created fresh])
  else .ok (pool, [])

/-- The loop of `recycleConnection`; the list is the queue at its head. -/
def recycleLoop (cfg : PoolConfig) (now : Conn → ℤ) :
    List Conn → ConnectionPool Caller Conn →
      Except PoolStop (ConnectionPool Caller Conn × List (PoolEvent Caller Conn))
  | [], pool => .ok (pool, [])
  | conn :: rest, pool =>
      if toSizeT cfg.minSize_ < (conn :: rest).length then
        if cfg.maxIdleTime_ ≤ pool.getAliveTime conn (now conn) then
          if conn ∈ pool.heap then do
            let size ← decrement pool.currentSize_
            let (pool, events) ← recycleLoop cfg now rest { pool with
              connectionQueue_ := rest
              heap := pool.heap.erase conn
              currentSize_ := size }
            return (pool, .deleted conn :: events)
          else .error .deletedConnection
        else .ok (pool, [])
      else .ok (pool, [])

def recycleConnection (cfg : PoolConfig) (pool : ConnectionPool Caller Conn)
    (now : Conn → ℤ) :
    Except PoolStop (ConnectionPool Caller Conn × List (PoolEvent Caller Conn)) :=
  recycleLoop cfg now pool.connectionQueue_ pool

def step [DecidableEq Caller] (cfg : PoolConfig) (pool : ConnectionPool Caller Conn) :
    PoolInput Caller Conn →
      Except PoolStop (ConnectionPool Caller Conn × List (PoolEvent Caller Conn))
  | .getConnection caller =>
      if caller ∈ pool.waiting then .error .notEnabled else pool.takeOrWait caller
  | .wake caller =>
      if caller ∈ pool.waiting then
        { pool with waiting := pool.waiting.erase caller }.takeOrWait caller
      else .error .notEnabled
  | .release caller conn now =>
      if (caller, conn) ∈ pool.lent then pool.giveBack caller conn now
      else .error .notEnabled
  | .produce fresh now => pool.produceConnection cfg fresh now
  | .recycle now => pool.recycleConnection cfg now

end ConnectionPool

end MyFileServer
