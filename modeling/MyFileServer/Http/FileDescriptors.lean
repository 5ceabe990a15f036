import MyFileServer.Http.FileServer
import MyFileServer.Http.HandlerCalls
import MyFileServer.Http.SelfDelimiting
import MyFileServer.Net.TcpServer

/-!
# The descriptors that requests open

The life of one connection, from `connectEstablished` to `connectDestroyed`,
with the files and the directories that its requests open.  The rest of the
server enters as the arguments of a request: what the users and the files are
by then, and the answers of the kernel.  A directory stream, whose descriptor
the code never sees, goes by its path; streams of C++ are left out, since
their destructors close them.
-/

namespace MyFileServer

open Execution CallLog

inductive Handle
  | file (fd : ℤ)
  | directory (path : Bytes)
  deriving DecidableEq, Repr

inductive FdEvent
  | opened (handle : Handle)
  | used (handle : Handle)
  | closed (handle : Handle)
  deriving DecidableEq, Repr

/-- What is open after the events, or `none` when something is used or closed
that is not open. -/
def openAfter : List Handle → List FdEvent → Option (List Handle)
  | live, [] => some live
  | live, .opened handle :: events => openAfter (handle :: live) events
  | live, .used handle :: events => if handle ∈ live then openAfter live events else none
  | live, .closed handle :: events =>
      if handle ∈ live then openAfter (live.erase handle) events else none

/-- All that is opened is closed, and nothing is closed or used that is not
open. -/
def ClosedOnce (events : List FdEvent) : Prop := openAfter [] events = some []

/-! ## Calls that concern a descriptor -/

/-- `open` answers -1 when it fails. -/
def openedEvents (fd : ℤ) : List FdEvent := if fd = -1 then [] else [.opened (.file fd)]

def usedEvents (fd : ℤ) : List FdEvent := if fd = -1 then [] else [.used (.file fd)]

def SysCall.fdEvents (env : Environment) (before : List SysCall) : SysCall → List FdEvent
  | .openFile path => openedEvents (env.descriptor before (cstr path))
  | .lseek fd _ => usedEvents fd
  | .opendir path =>
      if (env.entries before (cstr path)).isSome then [.opened (.directory (cstr path))] else []
  | .closedir path => [.closed (.directory (cstr path))]
  | _ => []

def sysEvents (env : Environment) : List SysCall → List SysCall → List FdEvent
  | _, [] => []
  | before, call :: calls => call.fdEvents env before ++ sysEvents env (before ++ [call]) calls

def Effect.closed? : Effect → Option FdEvent
  | .close fd => some (.closed (.file fd))
  | _ => none

/-- `sendFileInLoop` calls `sendfile` when it finds the connection idle. -/
def TcpConnection.fdEvents (c : TcpConnection) (op : Op) (effects : List Effect) :
    List FdEvent :=
  match op with
  | .sendFile fd _ _ _ =>
      (if c.state_ = .kConnected ∧ c.idle = true then [.used (.file fd)] else []) ++
        effects.filterMap Effect.closed?
  | _ => effects.filterMap Effect.closed?

/-! ## The connection -/

/-- A request with what `onRequest` finds, and the answers to the `write` of
the header and to `sendfile`; `file` is what the file holds from its offset
on. -/
structure FileRequest where
  env : Environment
  before : List SysCall
  server : FileServer
  order : (headers : Headers) → Traversal headers
  req : HttpRequest
  written : Answer
  sent : Answer
  file : Bytes

def ConnAction.toOp (r : FileRequest) : ConnAction → TcpConnection.Op
  | .send payload => .send payload r.written
  | .sendFile fd count => .sendFile fd count r.file r.sent
  | .shutdown => .shutdown

/-- The functions that the loop of the connection calls; `badRequest` is what
`onMessage` does with text that it cannot parse. -/
inductive FileInput
  | request (r : FileRequest)
  | badRequest (written : Answer)
  | handleWrite (answer : Answer)
  | handleClose
  | connectDestroyed

structure ServedConnection where
  conn : TcpConnection := .established
  destroyed : Bool := false
  ledger : List FdEvent := []

namespace ServedConnection

def perform (s : ServedConnection) (op : TcpConnection.Op) : Exec ServedConnection := do
  let (conn, effects) ← s.conn.step op
  return { s with conn, ledger := s.ledger ++ s.conn.fdEvents op effects }

def performAll (s : ServedConnection) (ops : List TcpConnection.Op) : Exec ServedConnection :=
  ops.foldlM perform s

def request (s : ServedConnection) (r : FileRequest) : Exec ServedConnection := do
  let outcome := onRequest r.env r.order r.server r.req r.before
  let (_, actions) ← outcome.result
  { s with ledger := s.ledger ++ sysEvents r.env r.before outcome.calls }.performAll
    (actions.map (ConnAction.toOp r))

/-- The callbacks that `handleClose` and `connectDestroyed` run do nothing to
a connection that is down. -/
def shut (s : ServedConnection) : ServedConnection :=
  { s with conn := { s.conn with
      state_ := .kDisconnected
      channel_ := s.conn.channel_.disableAll } }

def connectDestroyed (s : ServedConnection) : ServedConnection :=
  { (if s.conn.state_ = .kConnected then s.shut else s) with destroyed := true }

def apply (s : ServedConnection) : FileInput → Exec ServedConnection
  | .request r => s.request r
  | .badRequest written => s.performAll [.send MyFileServer.badRequest written, .shutdown]
  | .handleWrite answer => s.perform (.handleWrite answer)
  | .handleClose => .ok s.shut
  | .connectDestroyed => .ok s.connectDestroyed

def step (s : ServedConnection) (input : FileInput) : ServerExec (ServedConnection × Unit) :=
  if s.destroyed then .error .notEnabled
  else
    match s.apply input with
    | .ok next => .ok (next, ())
    | .error fault => .error (.fault fault)

end ServedConnection

/-! ## Events of a ledger -/

theorem openAfter_append (live : List Handle) (events more : List FdEvent) :
    openAfter live (events ++ more) =
      (openAfter live events).bind fun live' => openAfter live' more := by
  induction events generalizing live with
  | nil => rfl
  | cons event events ih =>
      cases event with
      | opened handle => exact ih (handle :: live)
      | used handle =>
          simp only [List.cons_append, openAfter]
          split
          · exact ih live
          · rfl
      | closed handle =>
          simp only [List.cons_append, openAfter]
          split
          · exact ih (live.erase handle)
          · rfl

theorem openAfter_replicate_used {live : List Handle} {handle : Handle}
    (hlive : handle ∈ live) (n : ℕ) :
    openAfter live (List.replicate n (.used handle)) = some live := by
  induction n with
  | zero => rfl
  | succ n ih =>
      rw [List.replicate_succ, openAfter, if_pos hlive]
      exact ih

/-- Whatever is open before, the events add just these handles. -/
def Leaves (handles : List Handle) (events : List FdEvent) : Prop :=
  ∀ live, openAfter live events = some (handles ++ live)

theorem leaves_nil : Leaves [] [] := fun _ => rfl

theorem Leaves.append {handles more : List Handle} {events later : List FdEvent}
    (hfirst : Leaves handles events) (hlater : Leaves more later) :
    Leaves (more ++ handles) (events ++ later) := by
  intro live
  rw [openAfter_append, hfirst, Option.bind_some, hlater, List.append_assoc]

theorem leaves_opened (handle : Handle) : Leaves [handle] [.opened handle] :=
  fun _ => rfl

theorem Leaves.used {handle : Handle} {events : List FdEvent}
    (h : Leaves [handle] events) : Leaves [handle] (events ++ [.used handle]) := by
  intro live
  rw [openAfter_append, h, Option.bind_some]
  exact openAfter_replicate_used List.mem_cons_self 1

theorem Leaves.closed {handle : Handle} {events : List FdEvent}
    (h : Leaves [handle] events) : Leaves [] (events ++ [.closed handle]) := by
  intro live
  rw [openAfter_append, h, Option.bind_some]
  simp [openAfter]

end MyFileServer
