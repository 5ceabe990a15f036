import MyFileServer.Http.Chunking
import MyFileServer.Http.Conversation
import MyFileServer.Http.HeaderLines
import MyFileServer.Lib.Frames

/-!
# What the client reads

The client of a conversation reads one response after another from the stream
that the server writes.  A response ends where its header `Content-Length`
says, and without one at the end of the stream.
-/

namespace MyFileServer

open Execution CallLog Delimiter Buffer

/-! ## The client -/

/-- The number of the bytes behind the empty line. -/
def announced (headers : List HeaderLine) : Option ℕ :=
  (headers.lookup contentLengthName).map number

def readReply (text : Bytes) : Option (ParsedResponse × Bytes) := do
  let parsed ← parseResponse text
  match announced parsed.headers with
  | some n =>
      if n ≤ parsed.body.length then
        some ({ parsed with body := parsed.body.take n }, parsed.body.drop n)
      else none
  | none => some (parsed, [])

def readReplies (text : Bytes) : Option (List ParsedResponse) :=
  Frames.readAll readReply (text.length + 1) text

/-! ## The replies of the server -/

/-- The answer to a message that is no request, or the response to a request
with the file that it names. -/
inductive Reply
  | refusal
  | response (res : HttpResponse) (order : Traversal res.headers_) (file : Bytes)

namespace Reply

def sentFile (res : HttpResponse) (file : Bytes) : Bytes :=
  if res.needSendFile then file.take (toSizeT (res.len_.getD 0)) else []

def text : Reply → Bytes
  | .refusal => badRequest
  | .response res order file => res.text order ++ sentFile res file

def closes : Reply → Bool
  | .refusal => true
  | .response res _ _ => res.closeConnection_

/-- What the client has to find. -/
def parsed : Reply → ParsedResponse
  | .refusal => { code := 400, message := ascii "Bad Request", headers := [], body := [] }
  | .response res order file =>
      { code := res.statusCode_.value
        message := res.statusMessage_
        headers := res.connectionLine :: order.1
        body := res.body_ ++ sentFile res file }

/-- No header breaks a line, and the client can tell where the response
ends. -/
def Delimited : Reply → Prop
  | .refusal => True
  | .response res _ _ =>
      res.WellFormed ∧ (Announces res ∨ (res.closeConnection_ = true ∧ Page res))

/-- The file is as long as its count. -/
def Complete : Reply → Prop
  | .refusal => True
  | .response res _ file => res.needSendFile = true → toSizeT (res.len_.getD 0) ≤ file.length

/-- The replies up to the first that closes the connection. -/
def untilClose : List Reply → List Reply
  | [] => []
  | reply :: replies => if reply.closes then [reply] else reply :: untilClose replies

def texts (replies : List Reply) : Bytes :=
  (untilClose replies).flatMap text

end Reply

namespace Occasion

def reply (o : Occasion) (req : HttpRequest) : Exec Reply := do
  let (_, res) ← (buildResponse o.env o.server req o.before).result
  return .response res (o.order res.headers_) o.file

def replies (o : Occasion) (actions : List Action) : Exec (List Reply) := do
  let answered ← (dispatched actions).mapM o.reply
  return (if .send badRequest ∈ actions then [.refusal] else []) ++ answered

end Occasion

namespace Conversation

/-- The replies to the message of the call. -/
def replies (call : TurnCall) : Exec (List Reply) :=
  match call.input with
  | .message _ o => o.replies call.output.actions
  | .handleWrite _ => return []

end Conversation

/-! ## Reading one reply -/

theorem lookup_traversal {headers : Headers} (order : Traversal headers) {key value : Bytes}
    (hlookup : headers.lookup key = some value) : order.1.lookup key = some value := by
  cases hfound : order.1.lookup key with
  | none =>
      have hmem := (mem_traversal_iff order key value).mpr hlookup
      have hne := List.lookup_eq_none_iff.mp hfound _ hmem
      simp at hne
  | some value' =>
      obtain ⟨front, back, hsplit, _⟩ := List.lookup_eq_some_iff.mp hfound
      have hmem : (key, value') ∈ order.1 := by
        rw [hsplit]
        simp
      rw [(mem_traversal_iff order key value').mp hmem] at hlookup
      exact hlookup

theorem lookup_traversal_none {headers : Headers} (order : Traversal headers) {key : Bytes}
    (hlookup : headers.lookup key = none) : order.1.lookup key = none := by
  cases hfound : order.1.lookup key with
  | none => rfl
  | some value =>
      obtain ⟨front, back, hsplit, _⟩ := List.lookup_eq_some_iff.mp hfound
      have hmem : (key, value) ∈ order.1 := by
        rw [hsplit]
        simp
      rw [(mem_traversal_iff order key value).mp hmem] at hlookup
      cases hlookup

namespace HttpResponse

variable {res : HttpResponse} (order : Traversal res.headers_)

/-- The line about the connection hides no header of another name. -/
theorem lookup_lines {key : Bytes} (hother : key ≠ res.connectionLine.1) :
    (res.connectionLine :: order.1).lookup key = order.1.lookup key := by
  rw [List.lookup_cons, beq_eq_false_iff_ne.mpr hother]

theorem contentLengthName_ne (res : HttpResponse) :
    contentLengthName ≠ res.connectionLine.1 := by
  unfold connectionLine statusStart
  cases res.closeConnection_ <;> cases res.statusCode_ <;> decide

theorem announced_of_announces {n : ℕ}
    (hlookup : res.headers_.lookup contentLengthName = some (decimal n)) :
    announced (res.connectionLine :: order.1) = some n := by
  unfold announced
  rw [lookup_lines order (contentLengthName_ne res), lookup_traversal order hlookup]
  exact congrArg some (digitsValue_decimal n)

theorem announced_of_page (hpage : Page res) :
    announced (res.connectionLine :: order.1) = none := by
  unfold announced
  rw [lookup_lines order (contentLengthName_ne res), lookup_traversal_none order hpage]
  rfl

/-- What follows the response is, for the parser of the head, more of its
body. -/
theorem parseResponse_text_append (hres : res.WellFormed) (rest : Bytes) :
    parseResponse (res.text order ++ rest) = some {
      code := res.statusCode_.value
      message := res.statusMessage_
      headers := res.connectionLine :: order.1
      body := res.body_ ++ rest } := by
  have hlonger : ({ res with body_ := res.body_ ++ rest } : HttpResponse).WellFormed :=
    ⟨hres.message_noBreak, hres.headers_plain⟩
  have htext : res.text order ++ rest =
      ({ res with body_ := res.body_ ++ rest } : HttpResponse).text order := by
    unfold text
    simp only [List.append_assoc]
    rfl
  rw [htext]
  exact parseResponse_text hlonger order

end HttpResponse

namespace Reply

theorem text_ne_nil (reply : Reply) : reply.text ≠ [] := by
  cases reply with
  | refusal => exact (by decide : badRequest ≠ [])
  | response res order file =>
      have hstart : res.text order ≠ [] := by
        simp [HttpResponse.text, HttpResponse.statusStart, ascii]
      exact List.append_ne_nil_of_left_ne_nil hstart _

theorem length_sentFile {res : HttpResponse} {order : Traversal res.headers_} {file : Bytes}
    (hcomplete : (response res order file).Complete) :
    (sentFile res file).length = if res.fd_ = -1 then 0 else toSizeT (res.len_.getD 0) := by
  unfold sentFile
  by_cases hfd : res.fd_ = -1
  · simp [HttpResponse.needSendFile, hfd]
  · have hneed : res.needSendFile = true := by simp [HttpResponse.needSendFile, hfd]
    rw [if_pos hneed, if_neg hfd, List.length_take, min_eq_left (hcomplete hneed)]

/-- The client reads a reply off any stream that goes on behind it, and one
that closes the connection at the end of the stream. -/
theorem readReply_text {reply : Reply} (hdelimited : reply.Delimited)
    (hcomplete : reply.Complete) {rest : Bytes} (hrest : reply.closes = true → rest = []) :
    readReply (reply.text ++ rest) = some (reply.parsed, rest) := by
  cases reply with
  | refusal =>
      rw [hrest rfl]
      decide +kernel
  | response res order file =>
      obtain ⟨hres, hends⟩ := hdelimited
      have hparse := HttpResponse.parseResponse_text_append order hres (sentFile res file ++ rest)
      unfold readReply text
      rw [List.append_assoc, hparse, Option.bind_eq_bind, Option.bind_some]
      rcases hends with ⟨n, hlookup, hlength⟩ | ⟨hclose, hpage⟩
      · have hall : n = (res.body_ ++ sentFile res file).length := by
          rw [hlength, List.length_append, length_sentFile hcomplete]
        simp only [HttpResponse.announced_of_announces order hlookup, ← List.append_assoc]
        rw [if_pos (by rw [List.length_append]; omega), List.take_left' hall.symm,
          List.drop_left' hall.symm]
        rfl
      · have hnothing : rest = [] := hrest hclose
        simp only [HttpResponse.announced_of_page order hpage, hnothing, List.append_nil]
        rfl

theorem texts_cons (reply : Reply) (replies : List Reply) :
    texts (reply :: replies) =
      reply.text ++ if reply.closes then [] else texts replies := by
  have hfirst : untilClose (reply :: replies) =
      if reply.closes then [reply] else reply :: untilClose replies := rfl
  unfold texts
  rw [hfirst]
  split <;> simp

theorem mem_untilClose {reply : Reply} {replies : List Reply}
    (hreply : reply ∈ untilClose replies) : reply ∈ replies := by
  induction replies with
  | nil => cases hreply
  | cons first replies ih =>
      unfold untilClose at hreply
      split at hreply
      · rw [List.mem_singleton.mp hreply]
        exact List.mem_cons_self
      · rcases List.mem_cons.mp hreply with rfl | hlater
        · exact List.mem_cons_self
        · exact List.mem_cons_of_mem _ (ih hlater)

/-- Nothing follows the reply that closes. -/
theorem closes_of_untilClose {replies before after : List Reply} {reply : Reply}
    (hsplit : untilClose replies = before ++ reply :: after) (hclose : reply.closes = true) :
    after = [] := by
  induction replies generalizing before with
  | nil => exact absurd hsplit.symm (by simp [untilClose])
  | cons first replies ih =>
      unfold untilClose at hsplit
      split at hsplit
      next =>
        cases before with
        | nil => exact (List.cons.inj hsplit).2.symm
        | cons _ before => exact absurd (List.cons.inj hsplit).2.symm (by simp)
      next hopen =>
        cases before with
        | nil =>
            rw [(List.cons.inj hsplit).1] at hopen
            exact absurd hclose hopen
        | cons _ before => exact ih (List.cons.inj hsplit).2

theorem readReplies_texts {replies : List Reply}
    (hdelimited : ∀ reply ∈ untilClose replies, reply.Delimited)
    (hcomplete : ∀ reply ∈ untilClose replies, reply.Complete) :
    readReplies (texts replies) = some ((untilClose replies).map parsed) := by
  refine Frames.readAll_flatMap (fun reply _ => reply.text_ne_nil) ?_ ?_
  · intro before reply after hsplit
    have hmem : reply ∈ untilClose replies := by
      rw [hsplit]
      simp
    refine readReply_text (hdelimited reply hmem) (hcomplete reply hmem) ?_
    intro hclose
    rw [closes_of_untilClose hsplit hclose]
    rfl
  · exact Nat.lt_succ_of_le (Frames.length_le_length_flatMap fun reply _ => reply.text_ne_nil)

/-! ## The calls behind the replies -/

/-- The calls of the connection say the replies, whatever comes later. -/
def Says (replies : List Reply) (ops : List TcpConnection.Op) : Prop :=
  ∀ later laterOps, TcpConnection.said laterOps = texts later →
    TcpConnection.said (ops ++ laterOps) = texts (replies ++ later)

theorem Says.nil : Says [] [] := fun _ _ h => h

theorem Says.append {first second : List Reply} {ops ops' : List TcpConnection.Op}
    (hfirst : Says first ops) (hsecond : Says second ops') :
    Says (first ++ second) (ops ++ ops') := by
  intro later laterOps hlater
  rw [List.append_assoc, List.append_assoc]
  exact hfirst _ _ (hsecond _ _ hlater)

theorem Says.said {replies : List Reply} {ops : List TcpConnection.Op}
    (hsaid : Says replies ops) : TcpConnection.said ops = texts replies := by
  have hall := hsaid [] [] rfl
  rwa [List.append_nil, List.append_nil] at hall

theorem says_handleWrite (answer : Answer) : Says [] [.handleWrite answer] :=
  fun _ _ h => h

theorem says_refusal (written : Answer) :
    Says [.refusal] [.send badRequest written, .shutdown] := by
  intro later laterOps _
  rw [List.singleton_append, texts_cons]
  rfl

theorem says_response (r : FileRequest) (res : HttpResponse) (order : Traversal res.headers_) :
    Says [.response res order r.file]
      ((.send (res.text order) :: (fileActions res ++ closeActions res)).map
        (ConnAction.toOp r)) := by
  intro later laterOps hlater
  rw [List.singleton_append, texts_cons]
  unfold fileActions closeActions text sentFile closes
  by_cases hfile : res.needSendFile = true <;> by_cases hclose : res.closeConnection_ = true <;>
    simp [hfile, hclose, ConnAction.toOp, TcpConnection.said, TcpConnection.Op.isShutdown,
      TcpConnection.Op.bytes, hlater]

end Reply

/-! ## The replies of a run -/

section Step

variable {o : Occasion} {req : HttpRequest} {ops : List TcpConnection.Op}

/-- `onRequest` makes the calls of one reply. -/
theorem Occasion.ops_onRequest (hops : o.ops (.onRequest req) = .ok ops) :
    ∃ reply, o.reply req = .ok reply ∧ Reply.Says [reply] ops ∧
      ((∀ op ∈ ops, op.Regular) → reply.Complete) := by
  obtain ⟨⟨server', actions⟩, hcall, hactions⟩ := bind_eq_ok.mp hops
  obtain ⟨res, hbuilt, hsent⟩ := onRequest_eq_ok hcall
  have hall := sendResponse_spec hsent
  cases hactions
  refine ⟨.response res (o.order res.headers_) o.file,
    bind_eq_ok.mpr ⟨_, hbuilt, rfl⟩, ?_, ?_⟩
  · rw [hall]
    exact Reply.says_response (o.request req) res (o.order res.headers_)
  · intro hregular hfile
    have hop := hregular (.sendFile res.fd_ (toSizeT (res.len_.getD 0)) o.file o.sent) (by
      rw [hall]
      simp [fileActions, hfile, ConnAction.toOp, Occasion.request])
    exact hop.1

theorem Occasion.ops_requests {requests : List HttpRequest}
    {opss : List (List TcpConnection.Op)}
    (hopss : (requests.map Action.onRequest).mapM o.ops = .ok opss) :
    ∃ answered, requests.mapM o.reply = .ok answered ∧ Reply.Says answered opss.flatten ∧
      ((∀ op ∈ opss.flatten, op.Regular) → ∀ reply ∈ answered, reply.Complete) := by
  induction requests generalizing opss with
  | nil =>
      cases hopss
      exact ⟨[], rfl, Reply.Says.nil, fun _ _ h => nomatch h⟩
  | cons req requests ih =>
      rw [List.map_cons, List.mapM_cons] at hopss
      obtain ⟨ops, hops, hmap⟩ := bind_eq_ok.mp hopss
      obtain ⟨later, hlater, hall⟩ := bind_eq_ok.mp hmap
      cases hall
      obtain ⟨reply, hreply, hsaid, hcomplete⟩ := Occasion.ops_onRequest hops
      obtain ⟨answered, hanswered, hsaysLater, hcompleteLater⟩ := ih hlater
      refine ⟨reply :: answered, ?_, ?_, ?_⟩
      · rw [List.mapM_cons, hreply, hanswered]
        rfl
      · rw [List.flatten_cons]
        exact hsaid.append hsaysLater
      · intro hregular
        rw [List.flatten_cons, List.forall_mem_append] at hregular
        exact List.forall_mem_cons.mpr ⟨hcomplete hregular.1, hcompleteLater hregular.2⟩

theorem dispatched_requests (ok : Bool) (requests : List HttpRequest) :
    dispatched (rejection ok ++ requests.map Action.onRequest) = requests := by
  unfold dispatched
  rw [List.filterMap_append, List.filterMap_map]
  have hsilent := dispatched_rejection ok
  unfold dispatched at hsilent
  rw [hsilent, List.nil_append]
  exact List.filterMap_some

/-- The calls that the actions of one message make. -/
theorem Occasion.ops_actions {ok : Bool} {opss : List (List TcpConnection.Op)}
    {requests : List HttpRequest}
    (hopss : (rejection ok ++ requests.map Action.onRequest).mapM o.ops = .ok opss) :
    ∃ replies, o.replies (rejection ok ++ requests.map Action.onRequest) = .ok replies ∧
      Reply.Says replies opss.flatten ∧
      ((∀ op ∈ opss.flatten, op.Regular) → ∀ reply ∈ replies, reply.Complete) := by
  have hrefused : .send badRequest ∈ rejection ok ++ requests.map Action.onRequest ↔
      ok = false := send_mem_rejection ok _ (by simp)
  rw [List.mapM_append] at hopss
  obtain ⟨front, hfront, hmap⟩ := bind_eq_ok.mp hopss
  obtain ⟨later, hlater, hall⟩ := bind_eq_ok.mp hmap
  cases hall
  obtain ⟨answered, hanswered, hsaid, hcomplete⟩ := Occasion.ops_requests hlater
  unfold Occasion.replies
  rw [dispatched_requests, hanswered]
  cases ok with
  | true =>
      cases hfront
      rw [if_neg (mt hrefused.mp (by decide))]
      exact ⟨answered, rfl, hsaid, hcomplete⟩
  | false =>
      cases hfront
      rw [if_pos (hrefused.mpr rfl)]
      refine ⟨.refusal :: answered, rfl, ?_, ?_⟩
      · exact (Reply.says_refusal o.written).append hsaid
      · intro hregular
        have hrest := hcomplete fun op hop => hregular op (by
          rw [List.flatten_append]
          exact List.mem_append_right _ hop)
        exact List.forall_mem_cons.mpr ⟨trivial, hrest⟩

end Step

namespace Conversation

variable {s final : Conversation}

theorem step_replies (hs : s.session.Inv) {input : ConversationInput} {next : Conversation}
    {turn : Turn} (hstep : s.step input = .ok (next, turn)) :
    next.session.Inv ∧ ∃ answers, replies ⟨s, input, turn⟩ = .ok answers ∧
      Reply.Says answers (turn.stream.map (·.input)) ∧
      ((∀ call ∈ turn.stream, call.input.Regular) → ∀ reply ∈ answers, reply.Complete) := by
  cases input with
  | message chunk o =>
      obtain ⟨⟨session, actions⟩, hdeliver, hanswered⟩ := bind_eq_ok.mp hstep
      obtain ⟨opss, hopss, hperform⟩ := bind_eq_ok.mp hanswered
      obtain ⟨hsession, hactions, hinputs, _⟩ := perform_run hperform
      obtain ⟨_, _, _, hinv, hshape⟩ := deliver_cases hs hdeliver
      have hlist : ∃ ok, ∃ requests : List HttpRequest,
          actions = rejection ok ++ requests.map Action.onRequest := by
        rcases hshape with ⟨ok, _, hactions⟩ | ⟨ok, _, _, body, _, _, _, hactions⟩
        · exact ⟨ok, [], by rw [hactions]; simp⟩
        · exact ⟨ok, [body], by rw [hactions]; rfl⟩
      obtain ⟨ok, requests, rfl⟩ := hlist
      obtain ⟨answers, hanswers, hsaid, hcomplete⟩ := Occasion.ops_actions hopss
      refine ⟨hsession ▸ hinv, answers, ?_, hinputs ▸ hsaid, ?_⟩
      · change o.replies turn.actions = .ok answers
        rw [hactions]
        exact hanswers
      · intro hregular
        refine hcomplete fun op hop => ?_
        rw [← hinputs] at hop
        obtain ⟨call, hcall, rfl⟩ := List.mem_map.mp hop
        exact hregular call hcall
  | handleWrite answer =>
      obtain ⟨hsession, _, hinputs, _⟩ := perform_run hstep
      refine ⟨hsession ▸ hs, [], rfl, ?_, fun _ _ h => nomatch h⟩
      rw [hinputs]
      exact Reply.says_handleWrite answer

theorem run_replies (hs : s.session.Inv) {inputs : List ConversationInput}
    {calls : List TurnCall} (hrun : run step s inputs = .ok (final, calls)) :
    ∃ answers, calls.mapM replies = .ok answers ∧
      Reply.Says answers.flatten ((stream calls).map (·.input)) ∧
      ((∀ call ∈ stream calls, call.input.Regular) →
        ∀ reply ∈ answers.flatten, reply.Complete) := by
  induction inputs generalizing s calls with
  | nil =>
      rw [(run_nil_eq_ok.mp hrun).2]
      exact ⟨[], rfl, Reply.Says.nil, fun _ _ h => nomatch h⟩
  | cons input inputs ih =>
      obtain ⟨next, turn, rest, hfirst, hrest, rfl⟩ := run_cons_eq_ok.mp hrun
      obtain ⟨hnext, answers, hanswers, hsaid, hcomplete⟩ := step_replies hs hfirst
      obtain ⟨later, hlater, hsaysLater, hcompleteLater⟩ := ih hnext hrest
      have hstream : stream (⟨s, input, turn⟩ :: rest) = turn.stream ++ stream rest :=
        List.flatMap_cons
      refine ⟨answers :: later, ?_, ?_, ?_⟩
      · rw [List.mapM_cons, hanswers, hlater]
        rfl
      · rw [hstream, List.map_append, List.flatten_cons]
        exact hsaid.append hsaysLater
      · intro hregular
        rw [hstream, List.forall_mem_append] at hregular
        rw [List.flatten_cons, List.forall_mem_append]
        exact ⟨hcomplete hregular.1, hcompleteLater hregular.2⟩

/-- What has left the connection and what still waits are the replies; the end
of the stream comes behind all of them. -/
theorem stream_texts {inputs : List ConversationInput} {calls : List TurnCall}
    (hrun : run step {} inputs = .ok (final, calls))
    (hsound : ∀ call ∈ stream calls, TcpConnection.Sound call) {answers : List Reply}
    (hsaid : Reply.Says answers ((stream calls).map (·.input))) :
    written (TcpConnection.effects (stream calls)) ++ final.conn.outputBuffer_.readable =
        Reply.texts answers ∧
      ∀ front back, TcpConnection.effects (stream calls) = front ++ .shutdownWrite :: back →
        written front = Reply.texts answers ∧ back = [] := by
  have hstream := run_stream hrun
  have hopen : TcpConnection.established.state_ = .kConnected := rfl
  have hempty : TcpConnection.established.outputBuffer_.readable = [] := Buffer.initial_readable
  have haccepted := TcpConnection.acceptedBytes_run hstream
  rw [if_pos hopen, hsaid.said] at haccepted
  have hbalance := (TcpConnection.balance_run TcpConnection.established_inv hstream hsound).2
  rw [hempty, List.nil_append, haccepted] at hbalance
  refine ⟨hbalance, ?_⟩
  intro front back hsplit
  obtain ⟨hfront, _, hback⟩ := TcpConnection.endsLast_of_guarded
    TcpConnection.established_inv hstream hsound front back hsplit
  rw [hempty, List.nil_append, haccepted] at hfront
  exact ⟨hfront, hback⟩

/-- The client gets the replies to its messages, in their order and up to the
first that closes the connection; the end of the stream comes behind them. -/
theorem conversation_replies {inputs : List ConversationInput} {calls : List TurnCall}
    (hrun : run step {} inputs = .ok (final, calls))
    (hsound : ∀ call ∈ stream calls, TcpConnection.Sound call) :
    ∃ answers, calls.mapM replies = .ok answers ∧
      ((∀ reply ∈ Reply.untilClose answers.flatten, reply.Delimited) →
        readReplies (written (TcpConnection.effects (stream calls)) ++
            final.conn.outputBuffer_.readable) =
          some ((Reply.untilClose answers.flatten).map Reply.parsed)) ∧
      ∀ front back, TcpConnection.effects (stream calls) = front ++ .shutdownWrite :: back →
        written front = Reply.texts answers.flatten ∧ back = [] := by
  obtain ⟨answers, hanswers, hsaid, hcomplete⟩ := run_replies Session.inv_fresh hrun
  obtain ⟨hall, hends⟩ := stream_texts hrun hsound hsaid
  refine ⟨answers, hanswers, ?_, hends⟩
  intro hdelimited
  rw [hall]
  refine Reply.readReplies_texts hdelimited fun reply hreply => ?_
  exact hcomplete (fun call hcall => (hsound call hcall).1) reply (Reply.mem_untilClose hreply)

/-! ## A request that is answered in two writes -/

theorem kGet_valid : Method.kGet ≠ .kInvalid := by
  decide

theorem kHttp10_valid : Version.kHttp10 ≠ .kUnknown := by
  decide

theorem slash_noBlank : chr ' ' ∉ ascii "/" := by
  decide

def oldLine : RequestLine where
  method := .kGet
  target := ascii "/"
  version := .kHttp10
  method_valid := kGet_valid
  target_noBlank := slash_noBlank
  version_valid := kHttp10_valid

theorem free_oldLine : Free kCRLF oldLine.text :=
  free_of_notMem (a := 13) (by decide) (by decide)

theorem noFields_free : ∀ field ∈ ([] : List Bytes), Free kCRLF field :=
  List.forall_mem_nil _

theorem noFields_colon : ∀ field ∈ ([] : List Bytes), IsField field :=
  List.forall_mem_nil _

/-- A client of HTTP/1.0, whose connection is closed after the response. -/
def oldRoot : RequestHead where
  line := oldLine
  fields := []
  line_free := free_oldLine
  fields_free := noFields_free
  fields_colon := noFields_colon

noncomputable def rootOccasion : Occasion where
  env := {}
  before := []
  server := missingServer
  order := storedOrder
  written := .wrote 5
  sent := .wrote 0
  file := []

def rootPage : HttpResponse :=
  sendHtml .k404NotFound (get404Html (ascii "File not found.")) { closeConnection_ := true }

theorem buildResponse_root :
    (buildResponse {} missingServer (oldRoot.request {} {}) []).result =
      .ok (missingServer, rootPage) := by
  have hfit : missingServer.workPath_.length + (ascii "/").length ≤ maxSize :=
    (lt_maxSize (by decide)).le
  unfold buildResponse
  rw [if_neg (by decide)]
  unfold setResponseBody
  exact lift_bind_result_eq_ok.mpr ⟨_, concat_eq_ok.mpr ⟨hfit, rfl⟩, rfl⟩

theorem pieces_root :
    ((rootPage.pieces (storedOrder rootPage.headers_)).map List.length).sum < 2 ^ 30 := by
  have horder : (storedOrder rootPage.headers_).1 =
      [(ascii "Content-Type", ascii "text/html;charset=utf-8")] := by
    rw [← Multiset.coe_eq_singleton, (storedOrder rootPage.headers_).2]
    rfl
  unfold HttpResponse.pieces
  rw [horder]
  decide +kernel

def rootOps (text : Bytes) : List TcpConnection.Op :=
  [.send text (.wrote 5), .shutdown]

theorem ops_root :
    rootOccasion.ops (.onRequest (oldRoot.request {} {})) =
      .ok (rootOps (rootPage.text (storedOrder rootPage.headers_))) := by
  have hcall := onRequest_of_short buildResponse_root pieces_root
  exact bind_eq_ok.mpr ⟨_, hcall, rfl⟩

theorem established_takes {text : Bytes} (htext : text.length < 2 ^ 30) (answer : Answer) :
    TcpConnection.established.BufferTakes (.send text answer) := by
  intro _
  have hleft : TcpConnection.established.leftover text.length answer ≤ text.length := by
    unfold TcpConnection.leftover
    cases answer with
    | wrote n =>
        dsimp only
        split
        · exact Nat.sub_le _ _
        · exact le_rfl
    | failed errno => exact le_rfl
  have hwriter : TcpConnection.established.outputBuffer_.writerIndex_ = 8 := rfl
  exact .of_lt (by omega) (lt_maxSize (by omega)).le

theorem regular_wrote (n : ℕ) : ∀ errno, Answer.wrote n = .failed errno →
    errno.isFault = false := by
  intro errno h
  cases h

theorem guarded_root {text : Bytes} (htext : text.length < 2 ^ 30) (n : ℕ) :
    Guarded TcpConnection.step (fun c op => op.Regular ∧ c.Fits op) .established
      (rootOps text ++ [.handleWrite (.wrote n)]) := by
  refine ⟨⟨regular_wrote 5, established_takes htext _, trivial⟩,
    fun _ _ _ => ⟨⟨trivial, trivial, trivial⟩, ?_⟩⟩
  exact fun _ _ _ => ⟨⟨regular_wrote n, trivial, trivial⟩, fun _ _ _ => trivial⟩

theorem reply_root :
    rootOccasion.reply (oldRoot.request {} {}) =
      .ok (.response rootPage (storedOrder rootPage.headers_) []) :=
  bind_eq_ok.mpr ⟨_, buildResponse_root, rfl⟩

theorem delimited_root :
    (Reply.response rootPage (storedOrder rootPage.headers_) []).Delimited := by
  have hhtml : IsHtml { closeConnection_ := true } rootPage := isHtml_sendHtml _ _
  refine ⟨hhtml.wellFormed (HttpResponse.wellFormed_of_empty rfl rfl), .inr ⟨rfl, ?_⟩⟩
  exact page_of_headers_empty rfl _ _

/-- Five bytes of the page leave at once and the rest when the socket can take
it. -/
theorem run_root : ∃ final calls,
    run step {} [.message { data := oldRoot.text } rootOccasion,
      .handleWrite (.wrote (2 ^ 20))] = .ok (final, calls) ∧
    (∀ call ∈ stream calls, TcpConnection.Sound call) ∧
    calls.mapM replies =
      .ok [[.response rootPage (storedOrder rootPage.headers_) []], []] := by
  have hlength : (rootPage.text (storedOrder rootPage.headers_)).length < 2 ^ 30 := by
    rw [← HttpResponse.flatten_pieces, List.length_flatten]
    exact pieces_root
  obtain ⟨conn, calls, hrun, hsound⟩ :=
    (guarded_root hlength (2 ^ 20)).run (fun _ _ hc hop => TcpConnection.step_returns hc hop)
      TcpConnection.established_inv
  obtain ⟨mid, first, later, hfirst, hlater, rfl⟩ := run_append_eq_ok.mp hrun
  have hdeliver : ∃ session, deliver {} { data := oldRoot.text } =
      .ok (session, [.onRequest (oldRoot.request {} {})]) :=
    deliver_head oldRoot (by decide) {} rfl rfl (by decide)
  obtain ⟨session, hdeliver⟩ := hdeliver
  have hmessage : step {} (.message { data := oldRoot.text } rootOccasion) =
      .ok (⟨session, mid⟩, ⟨[.onRequest (oldRoot.request {} {})], first⟩) := by
    have hops : [Action.onRequest (oldRoot.request {} {})].mapM rootOccasion.ops =
        .ok [rootOps (rootPage.text (storedOrder rootPage.headers_))] :=
      bind_eq_ok.mpr ⟨_, ops_root, rfl⟩
    refine bind_eq_ok.mpr ⟨_, hdeliver, bind_eq_ok.mpr ⟨_, hops, ?_⟩⟩
    exact bind_eq_ok.mpr ⟨_, hfirst, rfl⟩
  have hwrite : step ⟨session, mid⟩ (.handleWrite (.wrote (2 ^ 20))) =
      .ok (⟨session, conn⟩, ⟨[], later⟩) := bind_eq_ok.mpr ⟨_, hlater, rfl⟩
  refine ⟨_, _, run_cons_eq_ok.mpr ⟨_, _, _, hmessage,
    run_cons_eq_ok.mpr ⟨_, _, _, hwrite, rfl, rfl⟩, rfl⟩, ?_, ?_⟩
  case refine_2 =>
    have hreplies : rootOccasion.replies [.onRequest (oldRoot.request {} {})] =
        .ok [.response rootPage (storedOrder rootPage.headers_) []] :=
      bind_eq_ok.mpr ⟨_, bind_eq_ok.mpr ⟨_, reply_root, rfl⟩, rfl⟩
    rw [List.mapM_cons]
    exact bind_eq_ok.mpr ⟨_, hreplies, rfl⟩
  intro call hcall
  have hstream : stream [⟨{}, .message { data := oldRoot.text } rootOccasion,
        ⟨[.onRequest (oldRoot.request {} {})], first⟩⟩,
      ⟨⟨session, mid⟩, .handleWrite (.wrote (2 ^ 20)), ⟨[], later⟩⟩] = first ++ later := by
    simp [stream]
  rw [hstream] at hcall
  exact hsound call hcall

theorem conversation_replies_root : ∃ final calls,
    run step {} [.message { data := oldRoot.text } rootOccasion,
      .handleWrite (.wrote (2 ^ 20))] = .ok (final, calls) ∧
    readReplies (written (TcpConnection.effects (stream calls)) ++
        final.conn.outputBuffer_.readable) =
      some [(Reply.response rootPage (storedOrder rootPage.headers_) []).parsed] := by
  obtain ⟨final, calls, hrun, hsound, hreplies⟩ := run_root
  obtain ⟨answers, hanswers, hread, _⟩ := conversation_replies hrun hsound
  rw [hreplies] at hanswers
  cases hanswers
  refine ⟨final, calls, hrun, hread ?_⟩
  intro reply hreply
  rw [List.mem_singleton.mp hreply]
  exact delimited_root

end Conversation

end MyFileServer
