import MyFileServer.Http.Conversation
import MyFileServer.Http.ResponseFormat

/-!
# The plain server

`HttpServer` parses every message with a new `HttpContext` and closes the
connection behind every reply.  A connection therefore carries one reply: the
reply to the first message with which the bytes that are left hold a whole
request, or none of which begins one.
-/

namespace MyFileServer

open Execution Buffer

def HttpResponse.setCloseConnection (res : HttpResponse) (on : Bool) : HttpResponse :=
  { res with closeConnection_ := on }

def defaultHttpCallback (_ : HttpRequest) (resp : HttpResponse) : HttpResponse :=
  ((resp.setStatusCode .k404NotFound).setStatusMessage (ascii "Not Found")).setCloseConnection
    true

structure HttpServer where
  httpCallback_ : HttpRequest → HttpResponse → HttpResponse := defaultHttpCallback

/-- A message, with the order in which the response visits its headers and the
answer of the kernel to the `write` of the reply; or a socket that can be
written again. -/
inductive HttpServerInput
  | message (chunk : Chunk) (order : (headers : Headers) → Traversal headers) (written : Answer)
  | handleWrite (answer : Answer)

/-- The part of a connection that the server works on. -/
structure HttpConnection where
  inputBuffer_ : Buffer := Buffer.initial
  conn : TcpConnection := .established

namespace HttpServer

variable (server : HttpServer)

/-- The response that the callback fills in.  `onRequest` computes from the
request whether the connection is to be closed, and then closes it anyway. -/
def respond (req : HttpRequest) : HttpResponse :=
  server.httpCallback_ req { closeConnection_ := true }

def onRequest (order : (headers : Headers) → Traversal headers) (req : HttpRequest)
    (written : Answer) : Exec (List TcpConnection.Op) := do
  let response := server.respond req
  let buf ← response.appendToBuffer (order response.headers_) Buffer.initial
  return .send buf.readable written ::
    if response.closeConnection_ then [.shutdown] else []

def onMessage (buf : Buffer) (receiveTime : Timestamp)
    (order : (headers : Headers) → Traversal headers) (written : Answer) :
    Exec (Buffer × List TcpConnection.Op) := do
  let parsed ← parseRequest .storage {} buf receiveTime
  let rejected := if !parsed.ok then [.send badRequest written, .shutdown] else []
  if parsed.context.gotAll then
    let answered ← server.onRequest order parsed.context.request_ written
    return (parsed.buf, rejected ++ answered)
  else
    return (parsed.buf, rejected)

def step (s : HttpConnection) :
    HttpServerInput → Exec (HttpConnection × List TcpConnection.StreamCall)
  | .message chunk order written => do
      let buf ← s.inputBuffer_.receive chunk
      let (buf, ops) ← server.onMessage buf chunk.receiveTime order written
      let (conn, stream) ← run TcpConnection.step s.conn ops
      return (⟨buf, conn⟩, stream)
  | .handleWrite answer => do
      let (conn, stream) ← run TcpConnection.step s.conn [.handleWrite answer]
      return ({ s with conn }, stream)

abbrev ServerCall := Call HttpConnection HttpServerInput (List TcpConnection.StreamCall)

def stream (calls : List ServerCall) : List TcpConnection.StreamCall :=
  calls.flatMap fun call => call.output

/-- The reply of a connection with this input buffer.  Behind its readable bytes
the buffer matters only for the body of a POST request. -/
inductive FirstReply : Buffer → List HttpServerInput → Option Bytes → Prop
  | nothing {buf : Buffer} : FirstReply buf [] none
  | handleWrite {buf : Buffer} {answer : Answer} {inputs : List HttpServerInput}
      {reply : Option Bytes} :
      FirstReply buf inputs reply → FirstReply buf (.handleWrite answer :: inputs) reply
  /-- A request line without the end of the headers is forgotten. -/
  | silent {buf received : Buffer} {unread : Bytes} {chunk : Chunk}
      {order : (headers : Headers) → Traversal headers} {written : Answer}
      {inputs : List HttpServerInput} {reply : Option Bytes} {after : HttpContext} :
      buf.receive chunk = .ok received →
      HeadWaits chunk.receiveTime {} (buf.readable ++ chunk.data) true after unread →
      FirstReply (received.retrieve (received.readable.length - unread.length)) inputs reply →
      FirstReply buf (.message chunk order written :: inputs) reply
  /-- No request line, whole and accepted. -/
  | refused {buf : Buffer} {unread : Bytes} {chunk : Chunk}
      {order : (headers : Headers) → Traversal headers} {written : Answer}
      {inputs : List HttpServerInput} {after : HttpContext} :
      HeadWaits chunk.receiveTime {} (buf.readable ++ chunk.data) false after unread →
      FirstReply buf (.message chunk order written :: inputs) (some badRequest)
  /-- The body of a POST request is read behind the head. -/
  | answered {buf received left : Buffer} {rest : Bytes} {chunk : Chunk}
      {order : (headers : Headers) → Traversal headers} {written : Answer}
      {inputs : List HttpServerInput} {head req : HttpRequest} :
      buf.receive chunk = .ok received →
      HeadEnds chunk.receiveTime {} (buf.readable ++ chunk.data) true head rest →
      expectBody .storage head (received.retrieve (received.readable.length - rest.length)) =
        .ok (req, left) →
      FirstReply buf (.message chunk order written :: inputs)
        (some ((server.respond req).text (order (server.respond req).headers_)))

variable {server}

/-! ## One message -/

section Message

variable {order : (headers : Headers) → Traversal headers} {req : HttpRequest}
  {written : Answer} {ops : List TcpConnection.Op}

theorem onRequest_spec (hclose : (server.respond req).closeConnection_ = true)
    (hcall : server.onRequest order req written = .ok ops) :
    ops = [.send ((server.respond req).text (order (server.respond req).headers_)) written,
      .shutdown] := by
  obtain ⟨buf, hbuf, hops⟩ := bind_eq_ok.mp hcall
  have htext := (HttpResponse.appendToBuffer_spec initial_inv hbuf).2
  rw [Buffer.initial_readable, List.nil_append] at htext
  rw [hclose] at hops
  cases hops
  rw [htext]
  rfl

theorem onMessage_cases (hclose : ∀ req, (server.respond req).closeConnection_ = true)
    {buf buf' : Buffer} (hbuf : buf.Inv) {t : Timestamp}
    (hcall : server.onMessage buf t order written = .ok (buf', ops)) :
    (∃ after unread, HeadWaits t {} buf.readable true after unread ∧
        buf' = buf.retrieve (buf.readable.length - unread.length) ∧ ops = []) ∨
      (∃ after unread, HeadWaits t {} buf.readable false after unread ∧
        ops = [.send badRequest written, .shutdown]) ∨
      ∃ head req rest, HeadEnds t {} buf.readable true head rest ∧
        expectBody .storage head (buf.retrieve (buf.readable.length - rest.length)) =
          .ok (req, buf') ∧
        ops = [.send ((server.respond req).text (order (server.respond req).headers_)) written,
          .shutdown] := by
  obtain ⟨parsed, hparse, hrest⟩ := bind_eq_ok.mp hcall
  rcases headWaits_or_headEnds t (show ({} : HttpContext).AtHead from .inl rfl) buf.readable with
    ⟨ok, after, unread, hwaits⟩ | ⟨ok, head, rest, hends⟩
  · have hopen : after.gotAll = false := by
      rcases hwaits.atHead with hstate | hstate <;> simp [HttpContext.gotAll, hstate]
    cases ok with
    | true =>
        rw [parseRequest_of_headAccepted .storage hbuf hwaits, Except.ok.injEq] at hparse
        rw [← hparse] at hrest
        simp only [hopen, Bool.false_eq_true, if_false] at hrest
        obtain ⟨rfl, hops⟩ := Prod.mk.inj (Except.ok.inj hrest)
        exact .inl ⟨after, unread, hwaits, rfl, hops.symm⟩
    | false =>
        obtain ⟨left, hparsed, _⟩ := parseRequest_of_headWaits .storage hbuf hwaits
        rw [hparsed, Except.ok.injEq] at hparse
        rw [← hparse] at hrest
        simp only [hopen, Bool.false_eq_true, if_false] at hrest
        obtain ⟨_, hops⟩ := Prod.mk.inj (Except.ok.inj hrest)
        exact .inr (.inl ⟨after, unread, hwaits, hops.symm⟩)
  · have hok : ok = true := by
      generalize buf.readable = text at hends
      cases hends
      rfl
    subst hok
    rw [parseRequest_of_headEnds .storage hbuf hends] at hparse
    obtain ⟨⟨req, left⟩, hbody, hparsed⟩ := map_eq_ok.mp hparse
    rw [← hparsed] at hrest
    obtain ⟨answered, hanswered, hresult⟩ := bind_eq_ok.mp hrest
    obtain ⟨rfl, hops⟩ := Prod.mk.inj (Except.ok.inj hresult)
    refine .inr (.inr ⟨head, req, rest, hends, hbody, ?_⟩)
    rw [← hops, onRequest_spec (hclose req) hanswered]
    rfl

end Message

/-! ## Runs -/

/-- The calls of the connection in one step. -/
def madeBy (server : HttpServer) (s next : HttpConnection) (ops : List TcpConnection.Op) :
    HttpServerInput → Prop
  | .message chunk order written => ∃ buf, s.inputBuffer_.receive chunk = .ok buf ∧
      server.onMessage buf chunk.receiveTime order written = .ok (next.inputBuffer_, ops)
  | .handleWrite answer => next.inputBuffer_ = s.inputBuffer_ ∧ ops = [.handleWrite answer]

theorem step_run {s next : HttpConnection} {input : HttpServerInput}
    {made : List TcpConnection.StreamCall} (hstep : server.step s input = .ok (next, made)) :
    server.madeBy s next (made.map (·.input)) input ∧
      run TcpConnection.step s.conn (made.map (·.input)) = .ok (next.conn, made) := by
  cases input with
  | message chunk order written =>
      obtain ⟨buf, hreceive, hhandled⟩ := bind_eq_ok.mp hstep
      obtain ⟨⟨left, ops⟩, hmessage, hperform⟩ := bind_eq_ok.mp hhandled
      obtain ⟨⟨conn, stream⟩, hrun, hresult⟩ := bind_eq_ok.mp hperform
      cases hresult
      have hinputs := run_inputs hrun
      refine ⟨⟨buf, hreceive, ?_⟩, ?_⟩
      · rw [hinputs]
        exact hmessage
      · rw [hinputs]
        exact hrun
  | handleWrite answer =>
      obtain ⟨⟨conn, stream⟩, hrun, hresult⟩ := bind_eq_ok.mp hstep
      cases hresult
      have hinputs := run_inputs hrun
      exact ⟨⟨rfl, hinputs⟩, hinputs ▸ hrun⟩

theorem stream_run {inputs : List HttpServerInput} {s final : HttpConnection}
    {calls : List ServerCall} (hrun : run server.step s inputs = .ok (final, calls)) :
    run TcpConnection.step s.conn ((stream calls).map (·.input)) =
      .ok (final.conn, stream calls) := by
  induction inputs generalizing s calls with
  | nil =>
      obtain ⟨rfl, rfl⟩ := run_nil_eq_ok.mp hrun
      rfl
  | cons input inputs ih =>
      obtain ⟨next, made, rest, hfirst, hrest, rfl⟩ := run_cons_eq_ok.mp hrun
      unfold stream at ih ⊢
      rw [List.flatMap_cons, List.map_append]
      exact run_append_eq_ok.mpr ⟨_, _, _, (step_run hfirst).2, ih hrest, rfl⟩

theorem firstReply_run (hclose : ∀ req, (server.respond req).closeConnection_ = true)
    {inputs : List HttpServerInput} {s final : HttpConnection} (hs : s.inputBuffer_.Inv)
    {calls : List ServerCall} (hrun : run server.step s inputs = .ok (final, calls)) :
    ∃ reply, server.FirstReply s.inputBuffer_ inputs reply ∧
      TcpConnection.said ((stream calls).map (·.input)) = reply.getD [] := by
  induction inputs generalizing s calls with
  | nil =>
      obtain ⟨rfl, rfl⟩ := run_nil_eq_ok.mp hrun
      exact ⟨none, .nothing, rfl⟩
  | cons input inputs ih =>
      obtain ⟨next, made, rest, hfirst, hrest, rfl⟩ := run_cons_eq_ok.mp hrun
      have hmade := (step_run hfirst).1
      unfold stream at ih ⊢
      rw [List.flatMap_cons, List.map_append]
      cases input with
      | handleWrite answer =>
          obtain ⟨hleft, hops⟩ := hmade
          obtain ⟨reply, hreply, hsaid⟩ := ih (hleft ▸ hs) hrest
          rw [hleft] at hreply
          rw [hops]
          exact ⟨reply, .handleWrite hreply, hsaid⟩
      | message chunk order written =>
          obtain ⟨buf, hreceive, hmessage⟩ := hmade
          obtain ⟨hbuf, hread, _⟩ := Buffer.receive_spec hs hreceive
          rcases onMessage_cases hclose hbuf hmessage with ⟨after, unread, hwaits, hleft, hops⟩ |
            ⟨after, unread, hwaits, hops⟩ | ⟨head, req, rest, hends, hbody, hops⟩
          · obtain ⟨reply, hreply, hsaid⟩ := ih (hleft ▸ retrieve_inv hbuf _) hrest
            rw [hread] at hwaits
            rw [hops]
            exact ⟨reply, .silent hreceive hwaits (hleft ▸ hreply), hsaid⟩
          · rw [hread] at hwaits
            rw [hops]
            exact ⟨_, .refused hwaits, List.append_nil _⟩
          · rw [hread] at hends
            rw [hops]
            exact ⟨_, .answered hreceive hends hbody, List.append_nil _⟩

/-- A connection writes its first reply and nothing else, and closes its side
only behind it, whatever the client sends and whenever the socket can be
written. -/
theorem replies_once (hclose : ∀ req, (server.respond req).closeConnection_ = true)
    {inputs : List HttpServerInput} {final : HttpConnection} {calls : List ServerCall}
    (hrun : run server.step {} inputs = .ok (final, calls))
    (hsound : ∀ call ∈ stream calls, TcpConnection.Sound call) :
    ∃ reply, server.FirstReply Buffer.initial inputs reply ∧
      written (TcpConnection.effects (stream calls)) ++ final.conn.outputBuffer_.readable =
        reply.getD [] ∧
      TcpConnection.EndsLast final.conn (stream calls) := by
  obtain ⟨reply, hreply, hsaid⟩ := firstReply_run hclose initial_inv hrun
  have hstream := stream_run hrun
  have hbalance := (TcpConnection.balance_run TcpConnection.established_inv hstream hsound).2
  have hends := TcpConnection.endsLast_of_guarded TcpConnection.established_inv hstream hsound
  have hempty : TcpConnection.established.outputBuffer_.readable = [] := Buffer.initial_readable
  have haccepted := TcpConnection.acceptedBytes_run hstream
  have hopen : TcpConnection.established.state_ = .kConnected := rfl
  have hfresh : ({} : HttpConnection).conn = TcpConnection.established := rfl
  rw [hfresh, if_pos hopen, hsaid] at haccepted
  rw [hempty, List.nil_append, haccepted] at hbalance
  refine ⟨reply, hreply, hbalance, ?_⟩
  intro before after hsplit
  have hlast := hends before after hsplit
  rw [hempty, List.nil_append] at hlast
  exact hlast

/-! ### Bytes that are no request -/

noncomputable def helloInput : HttpServerInput :=
  .message { data := ascii "hello" } storedOrder (.wrote 5)

theorem guarded_badRequest :
    Guarded TcpConnection.step (fun c op => op.Regular ∧ c.Fits op) .established
      [.send badRequest (.wrote 5), .shutdown] := by
  refine ⟨⟨nofun, ?_, trivial⟩, fun _ _ _ => ⟨⟨trivial, trivial, trivial⟩, fun _ _ _ => trivial⟩⟩
  intro _
  exact .of_lt (by decide) (lt_maxSize (by decide)).le

theorem onMessage_hello (server : HttpServer) : ∃ buf left,
    Buffer.initial.receive { data := ascii "hello" } = .ok buf ∧
    server.onMessage buf {} storedOrder (.wrote 5) =
      .ok (left, [.send badRequest (.wrote 5), .shutdown]) := by
  have htakes : Buffer.initial.Takes (ascii "hello").length :=
    .of_lt (by decide) (lt_maxSize (by decide)).le
  obtain ⟨buf, hreceive⟩ := append_returns initial_inv htakes
  obtain ⟨hbuf, hread, _⟩ := append_spec initial_inv hreceive
  rw [initial_readable, List.nil_append] at hread
  have hfree : Delimiter.Free kCRLF buf.readable := by
    rw [hread, Delimiter.Free]
    decide
  have hwaits : HeadWaits {} {} buf.readable false {} buf.readable := .line hfree
  obtain ⟨left, hparse, _⟩ := parseRequest_of_headWaits .storage hbuf hwaits
  refine ⟨buf, left, hreceive, ?_⟩
  unfold onMessage
  rw [hparse]
  rfl

theorem replies_once_hello : ∃ final calls reply,
    run ({} : HttpServer).step {} [helloInput] = .ok (final, calls) ∧
    ({} : HttpServer).FirstReply Buffer.initial [helloInput] reply ∧
    written (TcpConnection.effects (stream calls)) ++ final.conn.outputBuffer_.readable =
      reply.getD [] ∧
    TcpConnection.EndsLast final.conn (stream calls) := by
  obtain ⟨conn, made, hmade, hsound⟩ :=
    guarded_badRequest.run (fun _ _ hc hop => TcpConnection.step_returns hc hop)
      TcpConnection.established_inv
  obtain ⟨buf, left, hreceive, hmessage⟩ := onMessage_hello {}
  have hstep : ({} : HttpServer).step {} helloInput = .ok (⟨left, conn⟩, made) :=
    bind_eq_ok.mpr ⟨_, hreceive, bind_eq_ok.mpr ⟨_, hmessage, bind_eq_ok.mpr ⟨_, hmade, rfl⟩⟩⟩
  have hrun : run ({} : HttpServer).step {} [helloInput] =
      .ok (⟨left, conn⟩, [⟨{}, helloInput, made⟩]) :=
    run_cons_eq_ok.mpr ⟨_, _, _, hstep, rfl, rfl⟩
  have hstream : stream [⟨{}, helloInput, made⟩] = made := List.append_nil made
  obtain ⟨reply, hreply, hwritten, hends⟩ :=
    replies_once (fun _ => rfl) hrun (hstream.symm ▸ hsound)
  exact ⟨_, _, reply, hrun, hreply, hwritten, hends⟩

end HttpServer

end MyFileServer
