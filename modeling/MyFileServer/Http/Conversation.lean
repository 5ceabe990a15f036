import MyFileServer.Http.FileDescriptors
import MyFileServer.Net.OutputStream

/-!
# A conversation

One connection from its bytes in to its bytes out: `onMessage` parses what has
arrived and hands requests to `onRequest`, whose response goes through `send`,
`sendFile` and `shutdown` to the socket.  The rest of the server enters as the
arguments of a message.
-/

namespace MyFileServer

open Execution CallLog

/-- What `onRequest` finds when a message comes, and the answers of the kernel
to the `write` of the header and to `sendfile`; `file` is what the file holds
from its offset on. -/
structure Occasion where
  env : Environment
  before : List SysCall
  server : FileServer
  order : (headers : Headers) → Traversal headers
  written : Answer
  sent : Answer
  file : Bytes

namespace Occasion

def request (o : Occasion) (req : HttpRequest) : FileRequest where
  env := o.env
  before := o.before
  server := o.server
  order := o.order
  req := req
  written := o.written
  sent := o.sent
  file := o.file

/-- The calls of the connection that an action makes. -/
def ops (o : Occasion) : Action → Exec (List TcpConnection.Op)
  | .send payload => return [.send payload o.written]
  | .shutdown => return [.shutdown]
  | .onRequest req => do
      let (_, actions) ← (onRequest o.env o.order o.server req o.before).result
      return actions.map (ConnAction.toOp (o.request req))

end Occasion

structure Conversation where
  session : Session := {}
  conn : TcpConnection := .established

inductive ConversationInput
  | message (chunk : Chunk) (o : Occasion)
  | handleWrite (answer : Answer)

/-- What `onMessage` did, and the calls of the connection. -/
structure Turn where
  actions : List Action
  stream : List TcpConnection.StreamCall

namespace Conversation

def perform (s : Conversation) (actions : List Action) (ops : List TcpConnection.Op) :
    Exec (Conversation × Turn) := do
  let (conn, stream) ← run TcpConnection.step s.conn ops
  return ({ s with conn }, { actions, stream })

/-- The handler does not look at the connection, so what it does to it can be
collected first. -/
def step (s : Conversation) : ConversationInput → Exec (Conversation × Turn)
  | .message chunk o => do
      let (session, actions) ← deliver s.session chunk
      let ops ← actions.mapM o.ops
      { s with session }.perform actions ops.flatten
  | .handleWrite answer => s.perform [] [.handleWrite answer]

abbrev TurnCall := Call Conversation ConversationInput Turn

/-- All calls of the connection in the run. -/
def stream (calls : List TurnCall) : List TcpConnection.StreamCall :=
  calls.flatMap fun call => call.output.stream

end Conversation

/-! ## The connection -/

namespace TcpConnection

open Execution

def Op.isShutdown : Op → Bool
  | .shutdown => true
  | _ => false

/-- The bytes that a call hands over. -/
def Op.bytes : Op → Bytes
  | .send payload _ => payload
  | .sendFile _ count file _ => file.take count
  | .shutdown => []
  | .handleWrite _ => []

/-- What the calls say before the first `shutdown`. -/
def said : List Op → Bytes
  | [] => []
  | op :: ops => if op.isShutdown then [] else op.bytes ++ said ops

variable {c final : TcpConnection} {ops : List Op} {calls : List StreamCall}

theorem state_sendInLoop {data : Bytes} {answer : Answer} {next : TcpConnection}
    {out : List Effect} (hcall : c.sendInLoop data answer = .ok (next, out)) :
    next.state_ = c.state_ := by
  unfold sendInLoop at hcall
  split at hcall
  · cases hcall
    rfl
  · dsimp only at hcall
    split at hcall
    · obtain ⟨buf, _, hnext⟩ := bind_eq_ok.mp hcall
      cases hnext
      rfl
    · cases hcall
      rfl

theorem state_sendFileInLoop (c : TcpConnection) (file : Bytes) (answer : Answer) :
    (c.sendFileInLoop file answer).1.state_ = c.state_ := by
  unfold sendFileInLoop
  split
  · rfl
  · by_cases hidle : c.idle
    · simp only [hidle, if_true]
      cases answer <;> dsimp only <;> split_ifs <;> rfl
    · simp only [hidle, Bool.false_eq_true, if_false]
      split_ifs <;> rfl

theorem state_handleWrite (c : TcpConnection) (answer : Answer) :
    (c.handleWrite answer).1.state_ = c.state_ := by
  unfold handleWrite
  split
  · cases answer with
    | failed errno => rfl
    | wrote n =>
        dsimp only
        split
        · split <;> rfl
        · rfl
  · rfl

/-- Only `shutdown` changes the state. -/
theorem state_step {next : TcpConnection} {op : Op} {out : List Effect}
    (hstep : c.step op = .ok (next, out)) :
    next.state_ = if op.isShutdown ∧ c.state_ = .kConnected then .kDisconnecting
      else c.state_ := by
  cases op with
  | send payload answer =>
      change c.send payload answer = .ok (next, out) at hstep
      rw [if_neg (by simp [Op.isShutdown])]
      unfold send at hstep
      split at hstep
      · exact state_sendInLoop hstep
      · cases hstep
        rfl
  | sendFile fd count file answer =>
      have hnext : (c.sendFile fd count file answer).1 = next :=
        congrArg Prod.fst (Except.ok.inj hstep)
      rw [if_neg (by simp [Op.isShutdown]), ← hnext]
      unfold sendFile
      split
      · exact state_sendFileInLoop _ file answer
      · rfl
  | shutdown =>
      have hnext : c.shutdown.1 = next := congrArg Prod.fst (Except.ok.inj hstep)
      rw [← hnext]
      unfold shutdown
      by_cases hopen : c.state_ = .kConnected
      · simp [hopen, Op.isShutdown]
      · simp [hopen]
  | handleWrite answer =>
      have hnext : (c.handleWrite answer).1 = next := congrArg Prod.fst (Except.ok.inj hstep)
      rw [if_neg (by simp [Op.isShutdown]), ← hnext]
      exact state_handleWrite c answer

theorem accepted_eq (c : TcpConnection) (op : Op) :
    c.accepted op = if c.state_ = .kConnected then op.bytes else [] := by
  cases op <;> simp [accepted, Op.bytes]

/-- A connection takes what is said before the first `shutdown`. -/
theorem acceptedBytes_run (hrun : Execution.run step c ops = .ok (final, calls)) :
    acceptedBytes calls = if c.state_ = .kConnected then said ops else [] := by
  induction ops generalizing c calls with
  | nil =>
      rw [(run_nil_eq_ok.mp hrun).2]
      simp [acceptedBytes, said]
  | cons op ops ih =>
      obtain ⟨next, out, rest, hfirst, hrest, rfl⟩ := run_cons_eq_ok.mp hrun
      have htail := ih hrest
      have hstate := state_step hfirst
      unfold acceptedBytes at htail ⊢
      rw [List.flatMap_cons, htail, accepted_eq, hstate]
      by_cases hopen : c.state_ = .kConnected
      · cases hshutdown : op.isShutdown with
        | true =>
            have hbytes : op.bytes = [] := by
              cases op <;> first | rfl | cases hshutdown
            simp [hopen, said, hshutdown, hbytes]
        | false => simp [hopen, said, hshutdown]
      · simp [hopen]

end TcpConnection

namespace Conversation

variable {s final : Conversation}

theorem perform_run {actions : List Action} {ops : List TcpConnection.Op} {next : Conversation}
    {turn : Turn} (hcall : s.perform actions ops = .ok (next, turn)) :
    next.session = s.session ∧ turn.actions = actions ∧ turn.stream.map (·.input) = ops ∧
      run TcpConnection.step s.conn ops = .ok (next.conn, turn.stream) := by
  obtain ⟨⟨conn, stream⟩, hrun, hnext⟩ := bind_eq_ok.mp hcall
  cases hnext
  exact ⟨rfl, rfl, run_inputs hrun, hrun⟩

/-- Each step is a run of the connection. -/
theorem step_run {input : ConversationInput} {next : Conversation} {turn : Turn}
    (hstep : s.step input = .ok (next, turn)) :
    run TcpConnection.step s.conn (turn.stream.map (·.input)) =
      .ok (next.conn, turn.stream) := by
  cases input with
  | message chunk o =>
      obtain ⟨⟨session, actions⟩, _, hanswered⟩ := bind_eq_ok.mp hstep
      obtain ⟨ops, _, hperform⟩ := bind_eq_ok.mp hanswered
      obtain ⟨_, _, hinputs, hrun⟩ := perform_run hperform
      rw [hinputs]
      exact hrun
  | handleWrite answer =>
      obtain ⟨_, _, hinputs, hrun⟩ := perform_run hstep
      rw [hinputs]
      exact hrun

theorem run_stream {inputs : List ConversationInput} {calls : List TurnCall}
    (hrun : run step s inputs = .ok (final, calls)) :
    run TcpConnection.step s.conn ((stream calls).map (·.input)) =
      .ok (final.conn, stream calls) := by
  induction inputs generalizing s calls with
  | nil =>
      obtain ⟨rfl, rfl⟩ := run_nil_eq_ok.mp hrun
      rfl
  | cons input inputs ih =>
      obtain ⟨next, turn, rest, hfirst, hrest, rfl⟩ := run_cons_eq_ok.mp hrun
      unfold stream at ih ⊢
      rw [List.flatMap_cons, List.map_append]
      exact run_append_eq_ok.mpr ⟨_, _, _, step_run hfirst, ih hrest, rfl⟩

end Conversation

end MyFileServer
