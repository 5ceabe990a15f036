import MyFileServer.Http.ParseBody

/-!
# Messages of a connection

`onMessage` is the message callback of the server.  What it does to the
connection is a list of actions; the handler of a request is one of them.
A `Session` is the part of a connection that the callback works on.
-/

namespace MyFileServer

open Execution Delimiter

inductive Action
  | send (payload : Bytes)
  | shutdown
  | onRequest (req : HttpRequest)
  deriving DecidableEq

def badRequest : Bytes :=
  ascii "HTTP/1.1 400 Bad Request\r\n\r\n"

def onMessage (context : HttpContext) (buf : Buffer) (receiveTime : Timestamp) :
    Exec (HttpContext × Buffer × List Action) := do
  let parsed ← parseRequest .storage context buf receiveTime
  let rejected := if !parsed.ok then [.send badRequest, .shutdown] else []
  if parsed.context.gotAll then
    return (parsed.context.reset, parsed.buf,
      rejected ++ [.onRequest parsed.context.request_])
  else
    return (parsed.context, parsed.buf, rejected)

structure Session where
  context_ : HttpContext := {}
  inputBuffer_ : Buffer := Buffer.initial

/-- How bytes enter the input buffer; `handleRead` takes the second way. -/
inductive Arrival
  | append
  | readFd
  deriving DecidableEq

structure Chunk where
  data : Bytes
  receiveTime : Timestamp := {}
  arrival : Arrival := .append

def Buffer.receive (b : Buffer) (chunk : Chunk) : Exec Buffer :=
  match chunk.arrival with
  | .append => b.append chunk.data
  | .readFd => b.readFd chunk.data

def deliver (s : Session) (chunk : Chunk) : Exec (Session × List Action) := do
  let buf ← s.inputBuffer_.receive chunk
  let (context, buf, actions) ← onMessage s.context_ buf chunk.receiveTime
  return ({ context_ := context, inputBuffer_ := buf }, actions)

def dispatched (actions : List Action) : List HttpRequest :=
  actions.filterMap fun
    | .onRequest req => some req
    | _ => none

/-- `setResponseBody` runs for every dispatched request but the one for the
icon of the site. -/
def RunsResponseBody (actions : List Action) : Prop :=
  ∃ req ∈ dispatched actions, req.path_ ≠ ascii "/favicon.ico"

/-! ## One call -/

theorem Buffer.receive_spec {b b' : Buffer} (hb : b.Inv) {chunk : Chunk}
    (hreceive : b.receive chunk = .ok b') :
    b'.Inv ∧ b'.readable = b.readable ++ chunk.data ∧
      b.buffer_.length ≤ b'.buffer_.length := by
  unfold receive at hreceive
  split at hreceive
  · exact append_spec hb hreceive
  · exact readFd_spec hb hreceive

def rejection (ok : Bool) : List Action :=
  if !ok then [.send badRequest, .shutdown] else []

@[simp] theorem dispatched_rejection (ok : Bool) :
    dispatched (rejection ok) = [] := by
  cases ok <;> rfl

@[simp] theorem dispatched_handled (ok : Bool) (req : HttpRequest) :
    dispatched (rejection ok ++ [.onRequest req]) = [req] := by
  cases ok <;> rfl

theorem send_mem_rejection (ok : Bool) (rest : List Action)
    (hrest : .send badRequest ∉ rest) :
    .send badRequest ∈ rejection ok ++ rest ↔ ok = false := by
  cases ok <;> simp [rejection, hrest]

namespace Session

structure Inv (s : Session) : Prop where
  buffer : s.inputBuffer_.Inv
  head : s.context_.AtHead

theorem inv_fresh : ({} : Session).Inv :=
  ⟨Buffer.initial_inv, .inl rfl⟩

def handled (body : Bytes) (buf : Buffer) : Session :=
  { context_ := ⟨.kExpectRequestLine, { m_string := body }⟩
    inputBuffer_ := buf }

end Session

theorem HeadWaits.atHead {t : Timestamp} {context after : HttpContext}
    {text unread : Bytes} {ok : Bool}
    (hwaits : HeadWaits t context text ok after unread) : after.AtHead := by
  cases hwaits with
  | line => exact .inl rfl
  | refused => exact .inl rfl
  | accepted => exact .inr rfl
  | headers => exact .inr rfl

theorem expectBody_spec {region : Buffer.Region} {req req' : HttpRequest}
    {buf buf' : Buffer} (hbuf : buf.Inv)
    (hcall : expectBody region req buf = .ok (req', buf')) :
    buf'.Inv ∧ buf'.buffer_ = buf.buffer_ ∧ req'.method_ = req.method_ := by
  unfold expectBody at hcall
  split at hcall
  · have hspec := parseBody_spec hbuf hcall
    exact ⟨hspec.1, hspec.2.1, hspec.2.2.1⟩
  · cases hcall
    exact ⟨hbuf, rfl, rfl⟩

section Deliver

variable {s : Session} {chunk : Chunk} {buf : Buffer}

theorem deliver_of_headWaits (hs : s.Inv)
    (hreceive : s.inputBuffer_.receive chunk = .ok buf)
    {ok : Bool} {after : HttpContext} {unread : Bytes}
    (hwaits : HeadWaits chunk.receiveTime s.context_ buf.readable ok after unread) :
    ∃ buf', deliver s chunk = .ok (⟨after, buf'⟩, rejection ok) ∧
      (⟨after, buf'⟩ : Session).Inv ∧ buf'.readable = unread := by
  have hbuf := (Buffer.receive_spec hs.buffer hreceive).1
  obtain ⟨buf', hparse, hbuf', hunread, _⟩ :=
    parseRequest_of_headWaits .storage hbuf hwaits
  refine ⟨buf', ?_, ⟨hbuf', hwaits.atHead⟩, hunread⟩
  have hstate : after.gotAll = false := by
    rcases hwaits.atHead with hstate | hstate <;>
      simp [HttpContext.gotAll, hstate]
  unfold deliver onMessage
  simp only [hreceive, hparse, hstate, bind, Except.bind]
  rfl

theorem onMessage_of_headEnds {context : HttpContext} {t : Timestamp} (hbuf : buf.Inv)
    {ok : Bool} {request : HttpRequest} {rest : Bytes}
    (hends : HeadEnds t context buf.readable ok request rest) :
    onMessage context buf t =
      (fun r => (⟨.kExpectRequestLine, { m_string := r.1.m_string }⟩, r.2,
        rejection ok ++ [.onRequest r.1])) <$>
        expectBody .storage request
          (buf.retrieve (buf.readable.length - rest.length)) := by
  have hparse := parseRequest_of_headEnds .storage hbuf hends
  unfold onMessage
  rw [hparse]
  unfold finishRequest
  cases expectBody .storage request
    (buf.retrieve (buf.readable.length - rest.length)) with
  | error fault => rfl
  | ok r => rfl

theorem deliver_of_headEnds (hs : s.Inv)
    (hreceive : s.inputBuffer_.receive chunk = .ok buf)
    {ok : Bool} {request : HttpRequest} {rest : Bytes}
    (hends : HeadEnds chunk.receiveTime s.context_ buf.readable ok request rest) :
    deliver s chunk =
      (fun r => (Session.handled r.1.m_string r.2,
        rejection ok ++ [.onRequest r.1])) <$>
        expectBody .storage request
          (buf.retrieve (buf.readable.length - rest.length)) := by
  have hbuf := (Buffer.receive_spec hs.buffer hreceive).1
  unfold deliver
  rw [hreceive]
  change (onMessage s.context_ buf chunk.receiveTime >>= _) = _
  rw [onMessage_of_headEnds hbuf hends]
  cases expectBody .storage request
    (buf.retrieve (buf.readable.length - rest.length)) with
  | error fault => rfl
  | ok r => rfl

theorem deliver_cases {s' : Session} {actions : List Action} (hs : s.Inv)
    (hstep : deliver s chunk = .ok (s', actions)) :
    ∃ buf, s.inputBuffer_.receive chunk = .ok buf ∧
      buf.readable = s.inputBuffer_.readable ++ chunk.data ∧ s'.Inv ∧
      ((∃ ok, HeadWaits chunk.receiveTime s.context_ buf.readable ok
            s'.context_ s'.inputBuffer_.readable ∧
          actions = rejection ok) ∨
        ∃ ok request rest body,
          HeadEnds chunk.receiveTime s.context_ buf.readable ok request rest ∧
          expectBody .storage request
              (buf.retrieve (buf.readable.length - rest.length)) =
            .ok (body, s'.inputBuffer_) ∧
          s'.context_ = ⟨.kExpectRequestLine, { m_string := body.m_string }⟩ ∧
          actions = rejection ok ++ [.onRequest body]) := by
  obtain ⟨buf, hreceive, _⟩ := bind_eq_ok.mp hstep
  obtain ⟨hbuf, hread, _⟩ := Buffer.receive_spec hs.buffer hreceive
  refine ⟨buf, hreceive, hread, ?_⟩
  rcases headWaits_or_headEnds chunk.receiveTime hs.head buf.readable with
    ⟨ok, after, unread, hwaits⟩ | ⟨ok, request, rest, hends⟩
  · obtain ⟨buf', hcall, hinv, hunread⟩ :=
      deliver_of_headWaits hs hreceive hwaits
    rw [hcall] at hstep
    cases hstep
    subst hunread
    exact ⟨hinv, .inl ⟨ok, hwaits, rfl⟩⟩
  · rw [deliver_of_headEnds hs hreceive hends] at hstep
    cases hbody : expectBody .storage request
        (buf.retrieve (buf.readable.length - rest.length)) with
    | error fault =>
        rw [hbody] at hstep
        cases hstep
    | ok r =>
        have hspec := expectBody_spec (Buffer.retrieve_inv hbuf _) hbody
        rw [hbody] at hstep
        cases hstep
        exact ⟨⟨hspec.1, .inl rfl⟩,
          .inr ⟨ok, request, rest, r.1, hends, hbody, rfl, rfl⟩⟩

end Deliver

theorem deliver_inv {s s' : Session} {chunk : Chunk} {actions : List Action}
    (hs : s.Inv) (hstep : deliver s chunk = .ok (s', actions)) : s'.Inv := by
  obtain ⟨_, _, _, hinv, _⟩ := deliver_cases hs hstep
  exact hinv

theorem reachable_inv {s : Session} (hreach : Reachable deliver {} s) :
    s.Inv :=
  hreach.invariant Session.inv_fresh fun _ _ _ _ hs hstep => deliver_inv hs hstep

end MyFileServer
