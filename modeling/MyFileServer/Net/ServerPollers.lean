import MyFileServer.Net.ConnectionRegistry

/-!
# The server on its pollers

The connections of `TcpServer` with the descriptors that the kernel gave them
and the pollers that know their channels by these.  A descriptor that is
closed may be given to a later connection.  An event is what the kernel has in
an interest set, and it names its channel by the pointer in there.
-/

namespace MyFileServer

open Execution

structure PolledServer where
  server : TcpServer
  /-- `sockfd_` of the socket and `fd_` of the channel. -/
  fd : ℕ → ℤ
  /-- Of the poller of each loop. -/
  channels_ : ℕ → ℤ → Option ℕ
  interest : ℕ → InterestSet ℕ
  /-- The calls of `epoll_ctl` so far. -/
  ctl : List CtlCall

inductive PolledStop
  | server (stop : ServerStop)
  | abort (reason : Abort)
  deriving DecidableEq, Repr

abbrev PolledExec := Except PolledStop

inductive PolledInput
  /-- An event of the listening socket, and what `accept` returns. -/
  | accept (connfd : ℤ) (onConnection : List CallbackOp)
  | functor (loop : ℕ) (ops : List CallbackOp)
  | event (loop : ℕ) (fd : ℤ) (event : ChannelEvent)

namespace PolledServer

def initial (listenAddr : InetAddress) (nameArg : Bytes) (writeCompleteCallback_ : Bool)
    (numLoops : ℕ) : PolledServer where
  server := TcpServer.initial listenAddr nameArg writeCompleteCallback_ numLoops
  fd := fun _ => 0
  channels_ := fun _ _ => none
  interest := fun _ _ => none
  ctl := []

/-- What a poller and the channels hold. -/
def poller (s : PolledServer) (loop : ℕ) : EPollPoller ℕ where
  channels_ := s.channels_ loop
  interest := s.interest loop
  channel := fun id => (s.server.objects id).conn.channel_
  index_ := fun id => (s.server.objects id).index_

/-- Back from the poller of the connection. -/
def put (s : PolledServer) (id : ℕ) (c : Connection) (poller : EPollPoller ℕ)
    (calls : List CtlCall) : PolledServer where
  server := s.server.set id
    { c with
      conn := { c.conn with channel_ := poller.channel id }
      index_ := poller.index_ id }
  fd := s.fd
  channels_ := Function.update s.channels_ c.loop_ poller.channels_
  interest := Function.update s.interest c.loop_ poller.interest
  ctl := s.ctl ++ calls

def onServer (s : PolledServer) (f : TcpServer → TcpServer) : PolledServer :=
  { s with server := f s.server }

/-- A function of `Channel` that calls `update`, on a connection with new
members. -/
def update (s : PolledServer) (id : ℕ) (c : Connection) (ch : Channel) :
    PolledExec PolledServer :=
  match (s.poller c.loop_).change s.fd id fun _ => ch with
  | .ok (poller, calls) => .ok (s.put id c poller calls)
  | .error reason => .error (.abort reason)

/-- `channel_->remove()`. -/
def remove (s : PolledServer) (id : ℕ) : PolledExec PolledServer :=
  match (s.poller (s.server.objects id).loop_).removeChannel s.fd id with
  | .ok (poller, calls) => .ok (s.put id (s.server.objects id) poller calls)
  | .error reason => .error (.abort reason)

def write (s : PolledServer) (id : ℕ) (op : TcpConnection.Op) : PolledExec PolledServer :=
  let c := s.server.objects id
  match c.conn.step op with
  | .error fault => .error (.server (.fault fault))
  | .ok (conn, effects) => do
      let s ←
        (if conn.channel_ = c.conn.channel_ then .ok (s.onServer (·.set id { c with conn }))
        else s.update id { c with conn } conn.channel_)
      return s.onServer (effects.foldl (TcpServer.queueEffect c.loop_ id))

def runCallback (s : PolledServer) (id : ℕ) (ops : List CallbackOp) :
    PolledExec PolledServer :=
  ops.foldlM (fun s op => s.write id op.toOp) s

def connectionCallback (s : PolledServer) (id : ℕ) (ops : List CallbackOp) :
    PolledExec PolledServer :=
  (s.onServer fun t => t.note (.connectionCallback id (t.objects id).connected)).runCallback
    id ops

def connectEstablished (s : PolledServer) (id : ℕ) (ops : List CallbackOp) :
    PolledExec PolledServer := do
  let c := s.server.objects id
  let c := { c with conn := { c.conn with state_ := .kConnected } }
  let s ← s.update id c c.conn.channel_.enableReading
  s.connectionCallback id ops

def connectDestroyed (s : PolledServer) (id : ℕ) (ops : List CallbackOp) :
    PolledExec PolledServer := do
  let c := s.server.objects id
  let s ←
    (if c.conn.state_ = .kConnected then do
      let c := { c with conn := { c.conn with state_ := .kDisconnected } }
      let s ← s.update id c c.conn.channel_.disableAll
      s.connectionCallback id ops
    else .ok s)
  let s ← s.remove id
  return s.onServer (·.note (.connectDestroyed id))

def handleClose (s : PolledServer) (id : ℕ) (ops : List CallbackOp) :
    PolledExec PolledServer := do
  let c := s.server.objects id
  let c := { c with conn := { c.conn with state_ := .kDisconnected } }
  let s ← s.update id c c.conn.channel_.disableAll
  let s ← s.connectionCallback id ops
  return s.onServer fun t => (t.note (.closeCallback id)).removeConnection id

def handleRead (s : PolledServer) (id : ℕ) (event : ChannelEvent) : PolledExec PolledServer :=
  match event.read with
  | .data => s.runCallback id event.onMessage
  | .eof => s.handleClose id event.onConnection
  | .error => .ok s

def handleEventWithGuard (s : PolledServer) (id : ℕ) (event : ChannelEvent) :
    PolledExec PolledServer := do
  let s ←
    (if anyOf event.revents EPOLLHUP && !anyOf event.revents EPOLLIN then
      s.handleClose id event.onConnection
    else .ok s)
  let s ←
    (if anyOf event.revents (EPOLLIN ||| EPOLLPRI) then s.handleRead id event else .ok s)
  if anyOf event.revents EPOLLOUT then s.write id (.handleWrite event.written) else .ok s

/-- The new connection is in `connections_`, with its descriptor. -/
def enter (s : PolledServer) (sockfd : ℤ) : PolledServer :=
  let connName := s.server.connName s.server.nextConnId_
  let t :=
    match s.server.connections_ connName with
    | some held => s.server.note (.erased held)
    | none => s.server
  { s with
    server := t.enter s.server.nextLoop.1 s.server.nextLoop.2 connName
    fd := Function.update s.fd s.server.made sockfd }

def newConnection (s : PolledServer) (sockfd : ℤ) (ops : List CallbackOp) :
    PolledExec PolledServer :=
  let ioLoop := s.server.nextLoop.1
  let id := s.server.made
  if ioLoop = 0 then (s.enter sockfd).connectEstablished id ops
  else .ok ((s.enter sockfd).onServer (·.queueInLoop ioLoop (.connectEstablished id)))

def perform (s : PolledServer) (ops : List CallbackOp) : LoopFunctor → PolledExec PolledServer
  | .connectEstablished id => s.connectEstablished id ops
  | .connectDestroyed id => s.connectDestroyed id ops
  | .removeConnectionInLoop id => .ok (s.onServer (·.removeConnectionInLoop id))
  | .callback id => s.runCallback id ops

/-- `Acceptor::handleRead` logs it when `accept` fails. -/
def step (s : PolledServer) : PolledInput → PolledExec (PolledServer × Unit)
  | .accept connfd ops =>
      if 0 ≤ connfd then (·, ()) <$> s.newConnection connfd ops else .ok (s, ())
  | .functor loop ops =>
      match s.server.pendingFunctors_ loop with
      | [] => .error (.server .notEnabled)
      | functor :: rest => (·, ()) <$> (s.onServer (·.pop loop rest)).perform ops functor
  | .event loop fd event =>
      match s.interest loop fd with
      | some wanted => (·, ()) <$> s.handleEventWithGuard wanted.ptr event
      | none => .error (.server .notEnabled)

end PolledServer

end MyFileServer
