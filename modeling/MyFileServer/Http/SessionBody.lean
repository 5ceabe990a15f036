import MyFileServer.Http.Chunking

/-!
# The body that a request leaves

After a request has been handled, `reset` swaps the request for an empty one.
The swap leaves out `m_string`, which only the body branch writes: what stays
behind is the body of the last POST, and the next request without a body
carries it.
-/

namespace MyFileServer

open Execution Delimiter Buffer

def Session.body (s : Session) : Bytes :=
  s.context_.request_.m_string

theorem processRequestLine_m_string (req : HttpRequest) (line : Bytes) :
    (processRequestLine req line).2.m_string = req.m_string := by
  unfold processRequestLine HttpRequest.setMethod
  simp only
  split_ifs <;> rfl

theorem addFields_m_string (req : HttpRequest) (fields : List Bytes) :
    (addFields req fields).m_string = req.m_string := by
  rw [addFields_eq]

theorem HeadWaits.m_string_eq {t : Timestamp} {context after : HttpContext}
    {text unread : Bytes} {ok : Bool}
    (hwaits : HeadWaits t context text ok after unread) :
    after.request_.m_string = context.request_.m_string := by
  cases hwaits with
  | line => rfl
  | @refused req _ line _ _ hrefuse =>
      have hkeep := processRequestLine_m_string req line
      rw [hrefuse] at hkeep
      exact hkeep
  | @accepted req _ line _ _ _ _ haccept =>
      have hkeep := processRequestLine_m_string req line
      rw [haccept] at hkeep
      rw [addFields_m_string]
      exact hkeep
  | headers => exact addFields_m_string _ _

theorem HeadEnds.m_string_eq {t : Timestamp} {context : HttpContext}
    {text rest : Bytes} {ok : Bool} {request : HttpRequest}
    (hends : HeadEnds t context text ok request rest) :
    request.m_string = context.request_.m_string := by
  cases hends with
  | @accepted req _ line _ _ _ _ _ haccept =>
      have hkeep := processRequestLine_m_string req line
      rw [haccept] at hkeep
      rw [addFields_m_string]
      exact hkeep
  | headers => exact addFields_m_string _ _

/-- The body after the requests, from the body before them. -/
def bodyAfter (body : Bytes) (requests : List HttpRequest) : Bytes :=
  requests.foldl (fun body req => if req.method_ = .kPost then req.m_string else body)
    body

def SizedBody (req : HttpRequest) : Prop :=
  req.method_ = .kPost →
    0 ≤ req.contentLength ∧ req.m_string.length = req.contentLength.toNat

theorem expectBody_body {region : Region} {req req' : HttpRequest}
    {buf buf' : Buffer} (hbuf : buf.Inv)
    (hcall : expectBody region req buf = .ok (req', buf')) :
    SizedBody req' ∧ req'.m_string = bodyAfter req.m_string [req'] := by
  have hmethod := (expectBody_spec hbuf hcall).2.2
  unfold expectBody at hcall
  unfold bodyAfter
  simp only [List.foldl_cons, List.foldl_nil]
  by_cases hpost : req.method_ = .kPost
  · rw [if_pos hpost] at hcall
    rw [if_pos (hmethod.trans hpost)]
    exact ⟨fun _ => (parseBody_spec hbuf hcall).2.2.2, rfl⟩
  · have hother : req'.method_ ≠ .kPost := by
      rw [hmethod]
      exact hpost
    rw [if_neg hpost] at hcall
    rw [if_neg hother]
    cases hcall
    exact ⟨fun h => absurd h hpost, rfl⟩

theorem deliver_body {s s' : Session} {chunk : Chunk} {actions : List Action}
    (hs : s.Inv) (hstep : deliver s chunk = .ok (s', actions)) :
    s'.body = bodyAfter s.body (dispatched actions) ∧
      ∀ req ∈ dispatched actions, SizedBody req := by
  obtain ⟨buf, hreceive, _, _, hcases⟩ := deliver_cases hs hstep
  rcases hcases with ⟨ok, hwaits, rfl⟩ |
    ⟨ok, request, rest, req, hends, hbody, hafter, rfl⟩
  · rw [dispatched_rejection]
    exact ⟨hwaits.m_string_eq, by simp⟩
  · have hbuf := retrieve_inv (receive_spec hs.buffer hreceive).1
      (buf.readable.length - rest.length)
    have hspec := expectBody_body hbuf hbody
    rw [dispatched_handled]
    refine ⟨?_, by simpa using hspec.1⟩
    unfold Session.body
    rw [hafter, ← hends.m_string_eq]
    exact hspec.2

def requests (calls : List MessageCall) : List HttpRequest :=
  calls.flatMap fun call => dispatched call.output

theorem run_body {s final : Session} {chunks : List Chunk}
    {calls : List MessageCall} (hs : s.Inv)
    (hrun : run deliver s chunks = .ok (final, calls)) :
    final.body = bodyAfter s.body (requests calls) ∧
      ∀ req ∈ requests calls, SizedBody req := by
  induction chunks generalizing s calls with
  | nil =>
      obtain ⟨rfl, rfl⟩ := run_nil_eq_ok.mp hrun
      exact ⟨rfl, by simp [requests]⟩
  | cons chunk chunks ih =>
      obtain ⟨next, output, rest, hstep, hrest, rfl⟩ := run_cons_eq_ok.mp hrun
      have hfirst := deliver_body hs hstep
      have htail := ih (deliver_inv hs hstep) hrest
      have hsplit : requests (⟨s, chunk, output⟩ :: rest) =
          dispatched output ++ requests rest := List.flatMap_cons
      rw [hsplit]
      constructor
      · rw [htail.1, hfirst.1]
        exact List.foldl_append.symm
      · intro req hreq
        rcases List.mem_append.mp hreq with hreq | hreq
        · exact hfirst.2 req hreq
        · exact htail.2 req hreq

/-! ## The first request without a body -/

theorem deliver_first_body {s s' : Session} {chunk : Chunk} {actions : List Action}
    (hs : s.Inv) (hstep : deliver s chunk = .ok (s', actions)) :
    (dispatched actions = [] ∧ s'.body = s.body) ∨
      ∃ req, dispatched actions = [req] ∧ (req.method_ ≠ .kPost → req.m_string = s.body) := by
  obtain ⟨buf, hreceive, _, _, hcases⟩ := deliver_cases hs hstep
  rcases hcases with ⟨ok, hwaits, rfl⟩ | ⟨ok, request, rest, req, hends, hbody, _, rfl⟩
  · exact .inl ⟨dispatched_rejection ok, hwaits.m_string_eq⟩
  · refine .inr ⟨req, dispatched_handled ok req, ?_⟩
    intro hmethod
    have hbuf := retrieve_inv (receive_spec hs.buffer hreceive).1
      (buf.readable.length - rest.length)
    have hafter := (expectBody_body hbuf hbody).2
    unfold bodyAfter at hafter
    rw [List.foldl_cons, List.foldl_nil, if_neg hmethod] at hafter
    exact hafter.trans hends.m_string_eq

theorem run_first_body {s final : Session} {chunks : List Chunk}
    {calls : List MessageCall} (hs : s.Inv)
    (hrun : run deliver s chunks = .ok (final, calls)) :
    ∀ req ∈ (requests calls).head?, req.method_ ≠ .kPost → req.m_string = s.body := by
  induction chunks generalizing s calls with
  | nil =>
      obtain ⟨rfl, rfl⟩ := run_nil_eq_ok.mp hrun
      simp [requests]
  | cons chunk chunks ih =>
      obtain ⟨next, output, rest, hstep, hrest, rfl⟩ := run_cons_eq_ok.mp hrun
      have hsplit : requests (⟨s, chunk, output⟩ :: rest) =
          dispatched output ++ requests rest := List.flatMap_cons
      rw [hsplit]
      rcases deliver_first_body hs hstep with ⟨hnone, hbody⟩ | ⟨first, hfirst, hbody⟩
      · rw [hnone, List.nil_append, ← hbody]
        exact ih (deliver_inv hs hstep) hrest
      · rw [hfirst]
        intro req hreq
        obtain rfl : first = req := Option.some.inj hreq
        exact hbody

end MyFileServer
