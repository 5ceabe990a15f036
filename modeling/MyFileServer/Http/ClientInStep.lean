import MyFileServer.Http.ConversationReplies
import MyFileServer.Http.SessionBody

/-!
# A client in step

A client that sends each request in one piece, without a body, and no faster
than the server reads: every request gets its own response, and the client
finds the responses in the order of its requests.
-/

namespace MyFileServer

open Execution Delimiter Buffer

/-- A request with the time and the occasion of its arrival. -/
structure SentRequest where
  head : RequestHead
  bodiless : head.line.method ≠ .kPost
  receiveTime : Timestamp
  occasion : Occasion

def SentRequest.reply (sent : SentRequest) : Exec Reply :=
  sent.occasion.reply (sent.head.request {} sent.receiveTime)

/-- The inputs of the connection while the client sends these requests. -/
inductive InStep : List ConversationInput → List SentRequest → Prop
  | done : InStep [] []
  | write {inputs sents} (answer : Answer) :
      InStep inputs sents → InStep (.handleWrite answer :: inputs) sents
  | send {inputs sents} (sent : SentRequest) (chunk : Chunk) :
      chunk.data = sent.head.text → chunk.receiveTime = sent.receiveTime →
      InStep inputs sents →
      InStep (.message chunk sent.occasion :: inputs) (sent :: sents)

/-- Nothing is left of the requests so far. -/
structure Session.Waiting (s : Session) : Prop where
  context_eq : s.context_ = {}
  buffer : s.inputBuffer_.Inv
  empty : s.inputBuffer_.readable = []

theorem waiting_fresh : ({} : Session).Waiting :=
  ⟨rfl, Buffer.initial_inv, Buffer.initial_readable⟩

theorem Session.Waiting.inv {s : Session} (hs : s.Waiting) : s.Inv :=
  ⟨hs.buffer, .inl (by rw [hs.context_eq])⟩

theorem Session.Waiting.deliver {s s' : Session} (hs : s.Waiting) {sent : SentRequest}
    {chunk : Chunk} (hdata : chunk.data = sent.head.text)
    (htime : chunk.receiveTime = sent.receiveTime) {actions : List Action}
    (hdeliver : MyFileServer.deliver s chunk = .ok (s', actions)) :
    s'.Waiting ∧ actions = [.onRequest (sent.head.request {} sent.receiveTime)] := by
  obtain ⟨buf, hreceive, _⟩ := bind_eq_ok.mp hdeliver
  obtain ⟨hbuf, hread, _⟩ := Buffer.receive_spec hs.buffer hreceive
  rw [hs.empty, List.nil_append, hdata, ← List.append_nil sent.head.text] at hread
  have hends := sent.head.headEnds sent.receiveTime {} []
  rw [← hread, ← htime] at hends
  have hcontext : s.context_ = ⟨.kExpectRequestLine, {}⟩ := hs.context_eq
  rw [← hcontext] at hends
  have hcall := deliver_of_headEnds hs.inv hreceive hends
  have hpost : (sent.head.request {} sent.receiveTime).method_ ≠ .kPost := by
    rw [RequestHead.request_method_]
    exact sent.bodiless
  unfold expectBody at hcall
  rw [htime, if_neg hpost, hdeliver] at hcall
  have hbody : (sent.head.request {} sent.receiveTime).m_string = [] := by
    rw [← htime, hends.m_string_eq, hs.context_eq]
  cases hcall
  refine ⟨⟨?_, Buffer.retrieve_inv hbuf _, readable_retrieve_suffix hbuf hends.suffix⟩, rfl⟩
  change (⟨.kExpectRequestLine, { m_string := _ }⟩ : HttpContext) = {}
  rw [hbody]

namespace Conversation

variable {s final : Conversation}

theorem replies_in_step {inputs : List ConversationInput} {sents : List SentRequest}
    (hsent : InStep inputs sents) (hs : s.session.Waiting) {calls : List TurnCall}
    (hrun : run step s inputs = .ok (final, calls)) {answers : List (List Reply)}
    (hanswers : calls.mapM replies = .ok answers) :
    sents.mapM SentRequest.reply = .ok answers.flatten := by
  induction hsent generalizing s calls answers with
  | done =>
      rw [(run_nil_eq_ok.mp hrun).2] at hanswers
      cases hanswers
      rfl
  | write answer _ ih =>
      obtain ⟨next, turn, rest, hfirst, hrest, rfl⟩ := run_cons_eq_ok.mp hrun
      rw [List.mapM_cons] at hanswers
      obtain ⟨first, hfirstAnswer, hmap⟩ := bind_eq_ok.mp hanswers
      obtain ⟨later, hlater, hall⟩ := bind_eq_ok.mp hmap
      cases hall
      cases hfirstAnswer
      rw [List.flatten_cons, List.nil_append]
      exact ih ((perform_run hfirst).1 ▸ hs) hrest hlater
  | send sent chunk hdata htime _ ih =>
      obtain ⟨next, turn, rest, hfirst, hrest, rfl⟩ := run_cons_eq_ok.mp hrun
      rw [List.mapM_cons] at hanswers
      obtain ⟨first, hfirstAnswer, hmap⟩ := bind_eq_ok.mp hanswers
      obtain ⟨later, hlater, hall⟩ := bind_eq_ok.mp hmap
      cases hall
      obtain ⟨⟨session, actions⟩, hdeliver, hanswered⟩ := bind_eq_ok.mp hfirst
      obtain ⟨opss, hopss, hperform⟩ := bind_eq_ok.mp hanswered
      obtain ⟨hsession, hactions, _, _⟩ := perform_run hperform
      obtain ⟨hwaiting, rfl⟩ := hs.deliver hdata htime hdeliver
      have hreplies : sent.occasion.replies turn.actions = .ok first := hfirstAnswer
      rw [hactions] at hreplies
      obtain ⟨answered, hone, hpure⟩ := bind_eq_ok.mp hreplies
      cases hpure
      have hrest := ih (hsession ▸ hwaiting) hrest hlater
      have hreply : [sent.head.request {} sent.receiveTime].mapM sent.occasion.reply =
          .ok answered := hone
      rw [List.mapM_cons] at hreply
      obtain ⟨reply, hsentReply, hnil⟩ := bind_eq_ok.mp hreply
      cases hnil
      rw [List.mapM_cons, List.flatten_cons]
      refine bind_eq_ok.mpr ⟨reply, hsentReply, ?_⟩
      rw [hrest]
      rfl

theorem exists_of_mem_answers {sents : List SentRequest} {answers : List Reply}
    (hanswers : sents.mapM SentRequest.reply = .ok answers) {reply : Reply}
    (hreply : reply ∈ answers) : ∃ sent ∈ sents, sent.reply = .ok reply := by
  induction sents generalizing answers with
  | nil =>
      cases hanswers
      cases hreply
  | cons sent sents ih =>
      rw [List.mapM_cons] at hanswers
      obtain ⟨first, hfirst, hmap⟩ := bind_eq_ok.mp hanswers
      obtain ⟨later, hlater, hall⟩ := bind_eq_ok.mp hmap
      cases hall
      rcases List.mem_cons.mp hreply with rfl | hmem
      · exact ⟨sent, List.mem_cons_self, hfirst⟩
      · obtain ⟨other, hother, hotherReply⟩ := ih hlater hmem
        exact ⟨other, List.mem_cons_of_mem _ hother, hotherReply⟩

/-- A client in step finds one response for each of its requests, in their
order and with the fields that the handler gave it, up to the first that
closes the connection. -/
theorem client_gets_answers {inputs : List ConversationInput} {sents : List SentRequest}
    (hsent : InStep inputs sents)
    (hdelimited : ∀ sent ∈ sents, ∀ reply, sent.reply = .ok reply → reply.Delimited)
    {calls : List TurnCall} (hrun : run step {} inputs = .ok (final, calls))
    (hsound : ∀ call ∈ stream calls, TcpConnection.Sound call) :
    ∃ answers, sents.mapM SentRequest.reply = .ok answers ∧
      readReplies (written (TcpConnection.effects (stream calls)) ++
          final.conn.outputBuffer_.readable) =
        some ((Reply.untilClose answers).map Reply.parsed) := by
  obtain ⟨answers, hanswers, hsays, hcomplete⟩ := run_replies Session.inv_fresh hrun
  have hinStep := replies_in_step hsent waiting_fresh hrun hanswers
  refine ⟨answers.flatten, hinStep, ?_⟩
  rw [(stream_texts hrun hsound hsays).1]
  refine Reply.readReplies_texts ?_ ?_
  · intro reply hreply
    obtain ⟨sent, hmem, hsentReply⟩ :=
      exists_of_mem_answers hinStep (Reply.mem_untilClose hreply)
    exact hdelimited sent hmem reply hsentReply
  · intro reply hreply
    exact hcomplete (fun call hcall => (hsound call hcall).1) reply
      (Reply.mem_untilClose hreply)

noncomputable def sentRoot : SentRequest where
  head := oldRoot
  bodiless := (by decide : Method.kGet ≠ .kPost)
  receiveTime := {}
  occasion := rootOccasion

theorem client_gets_answers_root : ∃ final calls,
    run step {} [.message { data := oldRoot.text } rootOccasion,
      .handleWrite (.wrote (2 ^ 20))] = .ok (final, calls) ∧
    ∃ answers, [sentRoot].mapM SentRequest.reply = .ok answers ∧
      readReplies (written (TcpConnection.effects (stream calls)) ++
          final.conn.outputBuffer_.readable) =
        some ((Reply.untilClose answers).map Reply.parsed) := by
  obtain ⟨final, calls, hrun, hsound, _⟩ := run_root
  have hsent : InStep [.message { data := oldRoot.text } rootOccasion,
      .handleWrite (.wrote (2 ^ 20))] [sentRoot] :=
    .send sentRoot _ rfl rfl (.write _ .done)
  refine ⟨final, calls, hrun, client_gets_answers hsent ?_ hrun hsound⟩
  intro sent hmem reply hreply
  rw [List.mem_singleton.mp hmem] at hreply
  have hsame := hreply.symm.trans reply_root
  cases hsame
  exact delimited_root

end Conversation

end MyFileServer
