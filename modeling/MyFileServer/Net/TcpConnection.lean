import MyFileServer.Net.BufferQueue
import MyFileServer.Net.Channel

/-!
# The sending side of a connection

The functions of `TcpConnection` that write to the socket, in the thread of
its loop.  Each of them makes at most one call of the kernel; the answer of the
kernel is an argument.  What leaves the connection is a list of effects.
-/

namespace MyFileServer

open Execution

inductive StateE
  | kDisconnected
  | kConnecting
  | kConnected
  | kDisconnecting
  deriving DecidableEq, Repr

inductive Errno
  | EWOULDBLOCK
  | EPIPE
  | ECONNRESET
  | other
  deriving DecidableEq, Repr

/-- The answer of `write` or `sendfile`: a count, or -1 and `errno`.  The
kernel takes no more than it is given, so a count is cut there. -/
inductive Answer
  | wrote (n : ℕ)
  | failed (errno : Errno)
  deriving DecidableEq, Repr

def Errno.isFault (errno : Errno) : Bool :=
  errno ≠ .EWOULDBLOCK && (errno = .EPIPE || errno = .ECONNRESET)

/-- Calls of the socket, of the system and of `queueInLoop`. -/
inductive Effect
  | write (data : Bytes)
  | shutdownWrite
  | close (fd : ℤ)
  | writeComplete
  | highWaterMark (len : ℕ)
  deriving DecidableEq

structure TcpConnection where
  state_ : StateE := .kConnecting
  channel_ : Channel := {}
  outputBuffer_ : Buffer := Buffer.initial
  sendFd_ : ℤ := 0
  sendLen_ : ℕ := 0
  /-- Whether the callback is set. -/
  writeCompleteCallback_ : Bool := false
  highWaterMarkCallback_ : Bool := false
  highWaterMark_ : ℕ := 64 * 1024 * 1024

namespace TcpConnection

def idle (c : TcpConnection) : Bool :=
  !c.channel_.isWriting && c.outputBuffer_.readableBytes = 0

def enableWritingUnless (c : TcpConnection) : Channel :=
  if c.channel_.isWriting then c.channel_ else c.channel_.enableWriting

/-- The locals of `sendInLoop` after the direct write. -/
structure Attempt where
  nwrote : ℕ := 0
  faultError : Bool := false
  effects : List Effect := []

def directWrite (c : TcpConnection) (data : Bytes) (answer : Answer) : Attempt :=
  if c.idle then
    match answer with
    | .wrote n =>
        let nwrote := min n data.length
        let remaining := data.length - nwrote
        { nwrote
          effects := .write (data.take nwrote) ::
            if remaining = 0 ∧ c.writeCompleteCallback_ then [.writeComplete] else [] }
    | .failed errno => { faultError := errno.isFault }
  else
    {}

def sendInLoop (c : TcpConnection) (data : Bytes) (answer : Answer) :
    Exec (TcpConnection × List Effect) :=
  if c.state_ = .kDisconnected then
    return (c, [])
  else
    let attempt := c.directWrite data answer
    let remaining := data.length - attempt.nwrote
    if !attempt.faultError ∧ 0 < remaining then do
      let oldLen := c.outputBuffer_.readableBytes
      let marked :=
        if c.highWaterMark_ ≤ oldLen + remaining ∧ oldLen < c.highWaterMark_ ∧
            c.highWaterMarkCallback_ then
          [.highWaterMark (oldLen + remaining)]
        else []
      let buf ← c.outputBuffer_.append (data.drop attempt.nwrote)
      return ({ c with outputBuffer_ := buf, channel_ := c.enableWritingUnless },
        attempt.effects ++ marked)
    else
      return (c, attempt.effects)

def send (c : TcpConnection) (data : Bytes) (answer : Answer) :
    Exec (TcpConnection × List Effect) :=
  if c.state_ = .kConnected then c.sendInLoop data answer else return (c, [])

/-- The argument `file` is what the open file `sendFd_` holds from its offset
on. -/
def sendFileInLoop (c : TcpConnection) (file : Bytes) (answer : Answer) :
    TcpConnection × List Effect :=
  if c.state_ = .kDisconnected then
    (c, [])
  else
    let (c, faultError, effects) : TcpConnection × Bool × List Effect :=
      if c.idle then
        match answer with
        | .wrote n =>
            let nwrote := min n (min c.sendLen_ file.length)
            let sendLen := c.sendLen_ - nwrote
            ({ c with sendLen_ := sendLen }, false,
              .write (file.take nwrote) ::
                if sendLen = 0 then [.close c.sendFd_] else [])
        | .failed errno => (c, errno.isFault, [])
      else
        (c, false, [])
    if !faultError ∧ 0 < c.sendLen_ then
      ({ c with channel_ := c.enableWritingUnless }, effects)
    else
      (c, effects)

def sendFile (c : TcpConnection) (fd : ℤ) (count : ℕ) (file : Bytes)
    (answer : Answer) : TcpConnection × List Effect :=
  if c.state_ = .kConnected then
    { c with sendFd_ := fd, sendLen_ := count }.sendFileInLoop file answer
  else
    (c, [])

def shutdownInLoop (c : TcpConnection) : List Effect :=
  if !c.channel_.isWriting then [.shutdownWrite] else []

def shutdown (c : TcpConnection) : TcpConnection × List Effect :=
  if c.state_ = .kConnected then
    let c := { c with state_ := .kDisconnecting }
    (c, c.shutdownInLoop)
  else
    (c, [])

def handleWrite (c : TcpConnection) (answer : Answer) :
    TcpConnection × List Effect :=
  if c.channel_.isWriting then
    match answer with
    | .wrote n =>
        let n := min n c.outputBuffer_.readableBytes
        let written := .write (c.outputBuffer_.readable.take n)
        if 0 < n then
          let c := { c with outputBuffer_ := c.outputBuffer_.retrieve n }
          if c.outputBuffer_.readableBytes = 0 then
            let c := { c with channel_ := c.channel_.disableWriting }
            (c, written :: ((if c.writeCompleteCallback_ then [.writeComplete] else []) ++
              if c.state_ = .kDisconnecting then c.shutdownInLoop else []))
          else
            (c, [written])
        else
          (c, [written])
    | .failed _ => (c, [])
  else
    (c, [])

def established : TcpConnection :=
  { state_ := .kConnected
    channel_ := ({} : Channel).enableReading }

inductive Op
  | send (payload : Bytes) (answer : Answer)
  | sendFile (fd : ℤ) (count : ℕ) (file : Bytes) (answer : Answer)
  | shutdown
  | handleWrite (answer : Answer)

def step (c : TcpConnection) : Op → Exec (TcpConnection × List Effect)
  | .send payload answer => c.send payload answer
  | .sendFile fd count file answer => return c.sendFile fd count file answer
  | .shutdown => return c.shutdown
  | .handleWrite answer => return c.handleWrite answer

end TcpConnection

end MyFileServer
