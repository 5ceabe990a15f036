import MyFileServer.Base.Decimal
import MyFileServer.Net.EPollPoller
import MyFileServer.Net.TcpConnection

/-!
# The server and its loops

`TcpServer` on the main loop, the connections on their io loops, and the
functors that the loops queue for each other.  A step is a new connection,
the first functor of some loop, or one event of one channel; other steps may
come between any two.  The callbacks of the program send or shut down their
own connection.
-/

namespace MyFileServer

open Execution

/-- `sin_addr`, an octet at a time, and `sin_port` in the order of the host. -/
structure InetAddress where
  sin_addr : UInt8 × UInt8 × UInt8 × UInt8
  sin_port : UInt16

def InetAddress.toIpPort (addr : InetAddress) : Bytes :=
  let (a, b, c, d) := addr.sin_addr
  decimal a.toNat ++ ascii "." ++ decimal b.toNat ++ ascii "." ++ decimal c.toNat ++
    ascii "." ++ decimal d.toNat ++ ascii ":" ++ decimal addr.sin_port.toNat

/-- What `Channel::update` makes of `index_`; the kernel reports events of a
channel that is `kAdded` and of no other. -/
def Index.afterUpdate (index : Index) (ch : Channel) : Index :=
  match index with
  | .kNew => .kAdded
  | .kDeleted => .kAdded
  | .kAdded => if ch.isNoneEvent then .kDeleted else .kAdded

theorem EPollPoller.updateChannel_index {Ptr : Type} [DecidableEq Ptr] {fd : Ptr → ℤ}
    {s s' : EPollPoller Ptr} {ch : Ptr} {calls : List CtlCall}
    (h : s.updateChannel fd ch = .ok (s', calls)) :
    s'.index_ ch = (s.index_ ch).afterUpdate (s.channel ch) := by
  have hupdate : ∀ {t t' : EPollPoller Ptr} {operation : EpollOp} {calls : List CtlCall},
      t.update fd operation ch = .ok (t', calls) → t'.index_ = t.index_ := by
    intro t t' operation calls h
    unfold EPollPoller.update at h
    split at h
    · cases h
      rfl
    · split_ifs at h
      cases h
      rfl
  unfold EPollPoller.updateChannel at h
  cases hindex : s.index_ ch with
  | kNew =>
      rw [if_pos (Or.inl hindex)] at h
      rw [hupdate h]
      simp [EPollPoller.set_index, Index.afterUpdate]
  | kDeleted =>
      rw [if_pos (Or.inr hindex)] at h
      rw [hupdate h]
      simp [EPollPoller.set_index, Index.afterUpdate]
  | kAdded =>
      rw [if_neg (by simp [hindex])] at h
      by_cases hnone : (s.channel ch).isNoneEvent = true
      · rw [if_pos hnone] at h
        obtain ⟨r, hr, hrest⟩ := bind_eq_ok.mp h
        cases hrest
        simp [EPollPoller.set_index, Index.afterUpdate, hnone]
      · rw [if_neg hnone] at h
        rw [hupdate h, hindex]
        simp [Index.afterUpdate, hnone]

/-! ## Connections -/

/-- What a callback of the program does with its connection. -/
inductive CallbackOp
  | send (payload : Bytes) (answer : Answer)
  | sendFile (fd : ℤ) (count : ℕ) (file : Bytes) (answer : Answer)
  | shutdown

def CallbackOp.toOp : CallbackOp → TcpConnection.Op
  | .send payload answer => .send payload answer
  | .sendFile fd count file answer => .sendFile fd count file answer
  | .shutdown => .shutdown

/-- A connection with what its channel and its server keep about it. -/
structure Connection where
  conn : TcpConnection
  index_ : Index
  loop_ : ℕ
  name_ : Bytes

namespace Connection

/-- A change of the channel that calls `update`. -/
def update (c : Connection) (ch : Channel) : Connection :=
  { c with conn := { c.conn with channel_ := ch }, index_ := c.index_.afterUpdate ch }

def connected (c : Connection) : Bool := c.conn.state_ = .kConnected

/-- The functions that write call `update` exactly when they change the
channel. -/
def write (c : Connection) (op : TcpConnection.Op) : Exec (Connection × List Effect) := do
  let (conn, effects) ← c.conn.step op
  if conn.channel_ = c.conn.channel_ then return ({ c with conn }, effects)
  else return ({ c with conn }.update conn.channel_, effects)

end Connection

/-! ## The server -/

/-- A functor of a loop; `callback` stands for `writeCompleteCallback_` and
`highWaterMarkCallback_`. -/
inductive LoopFunctor
  | connectEstablished (id : ℕ)
  | connectDestroyed (id : ℕ)
  | removeConnectionInLoop (id : ℕ)
  | callback (id : ℕ)
  deriving DecidableEq

/-- What is observed of a connection; `erased` stands for its removal from
`connections_`. -/
inductive LifeEvent
  | connectionCallback (id : ℕ) (connected : Bool)
  | closeCallback (id : ℕ)
  | erased (id : ℕ)
  | connectDestroyed (id : ℕ)
  deriving DecidableEq, Repr

inductive ReadResult
  | data
  | eof
  | error
  deriving DecidableEq, Repr

/-- An event, with the answers of the kernel and what the callbacks do if
they are called. -/
structure ChannelEvent where
  revents : BitVec 32
  read : ReadResult
  written : Answer
  onMessage : List CallbackOp := []
  onConnection : List CallbackOp := []

/-- Loop 0 is the main loop; the others are `loops_`.  An object is named by
the number of objects before it. -/
structure TcpServer where
  name_ : Bytes
  ipPort_ : Bytes
  /-- Whether the callback is set. -/
  writeCompleteCallback_ : Bool
  numLoops : ℕ
  next_ : ℕ
  nextConnId_ : ℤ
  connections_ : Bytes → Option ℕ
  objects : ℕ → Connection
  made : ℕ
  pendingFunctors_ : ℕ → List LoopFunctor
  history : List LifeEvent

/-- A step that cannot happen, or a fault of the code. -/
inductive ServerStop
  | notEnabled
  | fault (fault : Fault)
  deriving DecidableEq, Repr

abbrev ServerExec := Except ServerStop

inductive ServerInput
  | newConnection (onConnection : List CallbackOp)
  | functor (loop : ℕ) (ops : List CallbackOp)
  | event (id : ℕ) (event : ChannelEvent)

namespace TcpServer

def initial (listenAddr : InetAddress) (nameArg : Bytes) (writeCompleteCallback_ : Bool)
    (numLoops : ℕ) : TcpServer where
  name_ := nameArg
  ipPort_ := listenAddr.toIpPort
  writeCompleteCallback_ := writeCompleteCallback_
  numLoops := numLoops
  next_ := 0
  nextConnId_ := 1
  connections_ := fun _ => none
  objects := fun _ => ⟨{}, .kNew, 0, []⟩
  made := 0
  pendingFunctors_ := fun _ => []
  history := []

def set (s : TcpServer) (id : ℕ) (c : Connection) : TcpServer :=
  { s with objects := Function.update s.objects id c }

def note (s : TcpServer) (event : LifeEvent) : TcpServer :=
  { s with history := s.history ++ [event] }

def queueInLoop (s : TcpServer) (loop : ℕ) (functor : LoopFunctor) : TcpServer :=
  { s with pendingFunctors_ :=
      Function.update s.pendingFunctors_ loop (s.pendingFunctors_ loop ++ [functor]) }

/-- An effect that queues a callback. -/
def queueEffect (loop id : ℕ) (s : TcpServer) : Effect → TcpServer
  | .writeComplete => s.queueInLoop loop (.callback id)
  | .highWaterMark _ => s.queueInLoop loop (.callback id)
  | _ => s

def write (s : TcpServer) (id : ℕ) (op : TcpConnection.Op) : ServerExec TcpServer :=
  match (s.objects id).write op with
  | .ok (c, effects) => .ok (effects.foldl (queueEffect c.loop_ id) (s.set id c))
  | .error fault => .error (.fault fault)

/-- A callback of the program. -/
def runCallback (s : TcpServer) (id : ℕ) (ops : List CallbackOp) : ServerExec TcpServer :=
  ops.foldlM (fun s op => s.write id op.toOp) s

def connectionCallback (s : TcpServer) (id : ℕ) (ops : List CallbackOp) :
    ServerExec TcpServer :=
  (s.note (.connectionCallback id (s.objects id).connected)).runCallback id ops

def connectEstablished (s : TcpServer) (id : ℕ) (ops : List CallbackOp) :
    ServerExec TcpServer :=
  let c := s.objects id
  let c := { c with conn := { c.conn with state_ := .kConnected } }
  (s.set id (c.update c.conn.channel_.enableReading)).connectionCallback id ops

def connectDestroyed (s : TcpServer) (id : ℕ) (ops : List CallbackOp) :
    ServerExec TcpServer := do
  let c := s.objects id
  let s ←
    (if c.conn.state_ = .kConnected then
      let c := { c with conn := { c.conn with state_ := .kDisconnected } }
      (s.set id (c.update c.conn.channel_.disableAll)).connectionCallback id ops
    else .ok s)
  -- `channel_->remove()`
  return (s.set id { s.objects id with index_ := .kNew }).note (.connectDestroyed id)

def removeConnectionInLoop (s : TcpServer) (id : ℕ) : TcpServer :=
  let c := s.objects id
  let s :=
    match s.connections_ c.name_ with
    | some held => s.note (.erased held)
    | none => s
  let s := { s with connections_ := Function.update s.connections_ c.name_ none }
  s.queueInLoop c.loop_ (.connectDestroyed id)

/-- `closeCallback_`, which runs in the loop of the connection. -/
def removeConnection (s : TcpServer) (id : ℕ) : TcpServer :=
  if (s.objects id).loop_ = 0 then s.removeConnectionInLoop id
  else s.queueInLoop 0 (.removeConnectionInLoop id)

def handleClose (s : TcpServer) (id : ℕ) (ops : List CallbackOp) : ServerExec TcpServer := do
  let c := s.objects id
  let c := { c with conn := { c.conn with state_ := .kDisconnected } }
  let s ← (s.set id (c.update c.conn.channel_.disableAll)).connectionCallback id ops
  return (s.note (.closeCallback id)).removeConnection id

def handleRead (s : TcpServer) (id : ℕ) (event : ChannelEvent) : ServerExec TcpServer :=
  match event.read with
  | .data => s.runCallback id event.onMessage
  | .eof => s.handleClose id event.onConnection
  | .error => .ok s

/-- `handleError` reads the error of the socket and logs it. -/
def handleEventWithGuard (s : TcpServer) (id : ℕ) (event : ChannelEvent) :
    ServerExec TcpServer := do
  let s ←
    (if anyOf event.revents EPOLLHUP && !anyOf event.revents EPOLLIN then
      s.handleClose id event.onConnection
    else .ok s)
  let s ←
    (if anyOf event.revents (EPOLLIN ||| EPOLLPRI) then s.handleRead id event else .ok s)
  if anyOf event.revents EPOLLOUT then s.write id (.handleWrite event.written) else .ok s

/-- `getNextLoop`. -/
def nextLoop (s : TcpServer) : ℕ × ℕ :=
  if s.numLoops = 0 then (0, s.next_)
  else (s.next_ + 1, if s.numLoops ≤ s.next_ + 1 then 0 else s.next_ + 1)

/-- `snprintf` cuts the text behind the name of the server to 63 bytes. -/
def connName (s : TcpServer) (connId : ℤ) : Bytes :=
  s.name_ ++ (ascii "-" ++ s.ipPort_ ++ ascii "#" ++ to_string connId).take 63

def incInt (n : ℤ) : ℤ := if n = 2 ^ 31 - 1 then -2 ^ 31 else n + 1

def newConnection (s : TcpServer) (ops : List CallbackOp) : ServerExec TcpServer :=
  let (ioLoop, next_) := s.nextLoop
  let connName := s.connName s.nextConnId_
  let id := s.made
  let conn : TcpConnection := { writeCompleteCallback_ := s.writeCompleteCallback_ }
  let s :=
    match s.connections_ connName with
    | some held => s.note (.erased held)
    | none => s
  let s : TcpServer := { s with
    next_
    nextConnId_ := incInt s.nextConnId_
    made := s.made + 1
    objects := Function.update s.objects id ⟨conn, .kNew, ioLoop, connName⟩
    connections_ := Function.update s.connections_ connName (some id) }
  if ioLoop = 0 then s.connectEstablished id ops
  else .ok (s.queueInLoop ioLoop (.connectEstablished id))

def perform (s : TcpServer) (ops : List CallbackOp) : LoopFunctor → ServerExec TcpServer
  | .connectEstablished id => s.connectEstablished id ops
  | .connectDestroyed id => s.connectDestroyed id ops
  | .removeConnectionInLoop id => .ok (s.removeConnectionInLoop id)
  | .callback id => s.runCallback id ops

def step (s : TcpServer) : ServerInput → ServerExec (TcpServer × Unit)
  | .newConnection ops => (·, ()) <$> s.newConnection ops
  | .functor loop ops =>
      match s.pendingFunctors_ loop with
      | [] => .error .notEnabled
      | functor :: rest =>
          (·, ()) <$> TcpServer.perform { s with
            pendingFunctors_ := Function.update s.pendingFunctors_ loop rest } ops functor
  | .event id event =>
      if id < s.made ∧ (s.objects id).index_ = .kAdded then
        (·, ()) <$> s.handleEventWithGuard id event
      else .error .notEnabled

end TcpServer

end MyFileServer
