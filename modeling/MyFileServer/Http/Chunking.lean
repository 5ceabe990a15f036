import MyFileServer.Http.RequestHead

/-!
# Requests that arrive in chunks

The local `ok` of `parseRequest` starts as false and only the state of the
request line sets it.  A call that starts at the headers therefore reports an
error, whatever it reads, and `onMessage` answers with 400.
-/

namespace MyFileServer

open Execution Delimiter Buffer

def HeaderSectionEnds (text : Bytes) : Prop :=
  ∃ fields last rest, ClosedBlock kCRLF IsField text fields last rest

abbrev MessageCall := Call Session Chunk (List Action)

def ParseFails (call : MessageCall) : Prop :=
  ∃ buf parsed, call.pre.inputBuffer_.receive call.input = .ok buf ∧
    parseRequest .storage call.pre.context_ buf call.input.receiveTime =
      .ok parsed ∧
    parsed.ok = false

/-- A call that rejects its message does nothing else. -/
structure Inert (call : MessageCall) : Prop where
  exclusive : ¬ (.send badRequest ∈ call.output ∧ dispatched call.output ≠ [])
  noEffect : ParseFails call → ¬ RunsResponseBody call.output

theorem HeadEnds.headerSectionEnds {t : Timestamp} {context : HttpContext}
    {text rest : Bytes} {ok : Bool} {request : HttpRequest}
    (hends : HeadEnds t context text ok request rest)
    (hstate : context.state_ ≠ .kExpectRequestLine) : HeaderSectionEnds text := by
  cases hends with
  | accepted => exact absurd rfl hstate
  | headers hclosed => exact ⟨_, _, _, hclosed⟩

theorem HeadWaits.not_headerSectionEnds {t : Timestamp}
    {context after : HttpContext} {text unread : Bytes} {ok : Bool}
    (hwaits : HeadWaits t context text ok after unread)
    (hstate : context.state_ ≠ .kExpectRequestLine) :
    ¬ HeaderSectionEnds text := by
  cases hwaits with
  | line => exact absurd rfl hstate
  | refused => exact absurd rfl hstate
  | accepted => exact absurd rfl hstate
  | headers hopen =>
      intro h
      obtain ⟨_, _, _, hclosed⟩ := h
      exact hopen.not_closed kCRLF_unbordered hclosed

theorem HeadWaits.ok_eq_false_of_after {t : Timestamp}
    {context after : HttpContext} {text unread : Bytes} {ok : Bool}
    (hwaits : HeadWaits t context text ok after unread)
    (hafter : after.state_ = .kExpectRequestLine) : ok = false := by
  cases hwaits with
  | line => rfl
  | refused => rfl
  | accepted => cases hafter
  | headers => rfl

theorem HeadWaits.ok_eq_false {t : Timestamp} {context after : HttpContext}
    {text unread : Bytes} {ok : Bool}
    (hwaits : HeadWaits t context text ok after unread)
    (hstate : context.state_ ≠ .kExpectRequestLine) : ok = false := by
  cases hwaits with
  | line => rfl
  | refused => rfl
  | accepted => exact absurd rfl hstate
  | headers => rfl

theorem finishRequest_ok {region : Region} {ok : Bool} {req : HttpRequest}
    {buf : Buffer} {parsed : Parsed}
    (hcall : finishRequest region ok req buf = .ok parsed) : parsed.ok = ok := by
  unfold finishRequest at hcall
  cases hbody : expectBody region req buf with
  | error fault =>
      rw [hbody] at hcall
      cases hcall
  | ok r =>
      rw [hbody] at hcall
      cases hcall
      rfl

theorem inert_of_rejection {call : MessageCall} {ok : Bool}
    (hactions : call.output = rejection ok) : Inert call := by
  have hnone : dispatched call.output = [] := by
    rw [hactions, dispatched_rejection]
  constructor
  · intro h
    exact h.2 hnone
  · intro _ hruns
    obtain ⟨req, hreq, _⟩ := hruns
    rw [hnone] at hreq
    cases hreq

theorem HeadEnds.parseRequest_ok {t : Timestamp} {context : HttpContext}
    {buf : Buffer} (hbuf : buf.Inv) {rest : Bytes} {ok : Bool}
    {request : HttpRequest}
    (hends : HeadEnds t context buf.readable ok request rest) {parsed : Parsed}
    (hparse : parseRequest .storage context buf t = .ok parsed) :
    parsed.ok = ok := by
  rw [parseRequest_of_headEnds .storage hbuf hends] at hparse
  exact finishRequest_ok hparse

theorem inert_iff_of_headEnds {call : MessageCall} {buf : Buffer} {ok : Bool}
    {request body : HttpRequest} {rest : Bytes} (hs : call.pre.Inv)
    (hreceive : call.pre.inputBuffer_.receive call.input = .ok buf)
    (hends : HeadEnds call.input.receiveTime call.pre.context_ buf.readable ok
      request rest)
    (hactions : call.output = rejection ok ++ [.onRequest body]) :
    Inert call ↔ ok = true := by
  have hsend : .send badRequest ∈ call.output ↔ ok = false := by
    rw [hactions]
    exact send_mem_rejection ok _ (by simp)
  constructor
  · intro hinert
    by_contra hfalse
    apply hinert.exclusive
    rw [hsend, hactions, dispatched_handled]
    exact ⟨Bool.eq_false_iff.mpr hfalse, by simp⟩
  · intro hok
    constructor
    · intro h
      have hfalse := hsend.mp h.1
      rw [hok] at hfalse
      cases hfalse
    · intro hfails
      obtain ⟨buf', parsed, hreceive', hparse, hfalse⟩ := hfails
      rw [hreceive, Except.ok.injEq] at hreceive'
      subst hreceive'
      have hbuf := (receive_spec hs.buffer hreceive).1
      rw [hends.parseRequest_ok hbuf hparse, hok] at hfalse
      cases hfalse

theorem inert_iff {call : MessageCall} {next : Session} (hs : call.pre.Inv)
    (hstep : deliver call.pre call.input = .ok (next, call.output)) :
    Inert call ↔
      call.pre.context_.state_ = .kExpectRequestLine ∨
        ¬ HeaderSectionEnds
          (call.pre.inputBuffer_.readable ++ call.input.data) := by
  obtain ⟨buf, hreceive, hread, _, hcases⟩ := deliver_cases hs hstep
  rw [← hread]
  rcases hcases with ⟨ok, hwaits, hactions⟩ |
    ⟨ok, request, rest, body, hends, _, _, hactions⟩
  · apply iff_of_true (inert_of_rejection hactions)
    by_cases hstate : call.pre.context_.state_ = .kExpectRequestLine
    · exact .inl hstate
    · exact .inr (hwaits.not_headerSectionEnds hstate)
  · rw [inert_iff_of_headEnds hs hreceive hends hactions, hends.ok_eq,
      decide_eq_true_iff]
    constructor
    · exact .inl
    · intro h
      by_contra hstate
      rcases h with hline | hopen
      · exact hstate hline
      · exact hopen (hends.headerSectionEnds hstate)

/-- Over every run from a reachable session: the calls are inert exactly when
no header section ends in a later call than its request line. -/
theorem rejected_calls_inert_iff {s final : Session} {chunks : List Chunk}
    {calls : List MessageCall} (hreach : Reachable deliver {} s)
    (hrun : run deliver s chunks = .ok (final, calls)) :
    (∀ call ∈ calls, Inert call) ↔
      ∀ call ∈ calls, call.pre.context_.state_ = .kExpectRequestLine ∨
        ¬ HeaderSectionEnds
          (call.pre.inputBuffer_.readable ++ call.input.data) := by
  have hpre := (hreach.run hrun).2
  have hsteps := run_call hrun
  apply forall₂_congr
  intro call hcall
  obtain ⟨next, hstep⟩ := hsteps call hcall
  exact inert_iff (reachable_inv (hpre call hcall)) hstep

theorem rejected_calls_inert_get :
    ∃ final calls,
      run deliver {} [{ data := ascii "GET / HTTP/1.1\r\n\r\n" }] =
        .ok (final, calls) ∧
      ∀ call ∈ calls, Inert call := by
  have hcheck :
      (run deliver {} [{ data := ascii "GET / HTTP/1.1\r\n\r\n" }]).map
        (·.2.map (·.pre.context_.state_)) = .ok [.kExpectRequestLine] := by
    decide +kernel
  obtain ⟨r, hrun, hstates⟩ := exists_of_map_eq_ok hcheck
  refine ⟨r.1, r.2, hrun, (rejected_calls_inert_iff .start hrun).mpr ?_⟩
  intro call hcall
  have hstate := List.mem_map_of_mem hcall (f := (·.pre.context_.state_))
  rw [hstates] at hstate
  exact .inl (List.mem_singleton.mp hstate)

/-- The empty line in a chunk of its own: 400 and the handler, in one call. -/
theorem rejected_call_dispatches :
    ∃ final calls,
      run deliver {} [{ data := ascii "GET / HTTP/1.1\r\n" }, { data := kCRLF }] =
        .ok (final, calls) ∧
      ∃ call ∈ calls, .send badRequest ∈ call.output ∧
        RunsResponseBody call.output ∧ ¬ Inert call := by
  let request : HttpRequest :=
    { method_ := .kGet, path_ := ascii "/", version_ := .kHttp11 }
  have houtputs :
      (run deliver {} [{ data := ascii "GET / HTTP/1.1\r\n" }, { data := kCRLF }]).map
          (fun r => r.2.map (·.output)) =
        .ok [[], [.send badRequest, .shutdown, .onRequest request]] := by
    decide +kernel
  obtain ⟨r, hrun, hlist⟩ := exists_of_map_eq_ok houtputs
  have hmem : [.send badRequest, .shutdown, .onRequest request] ∈
      r.2.map (·.output) := by
    rw [hlist]
    simp
  obtain ⟨call, hcall, houtput⟩ := List.mem_map.mp hmem
  refine ⟨r.1, r.2, hrun, call, hcall, ?_, ?_, ?_⟩
  · rw [houtput]
    exact List.mem_cons_self
  · rw [houtput]
    exact ⟨request, List.mem_cons_self, by decide⟩
  · intro hinert
    apply hinert.exclusive
    rw [houtput]
    exact ⟨List.mem_cons_self, by simp [dispatched]⟩

/-! ## A request in several chunks -/

structure HttpRequest.SameFields (req req' : HttpRequest) : Prop where
  method : req.method_ = req'.method_
  path : req.path_ = req'.path_
  query : req.query_ = req'.query_
  version : req.version_ = req'.version_
  headers : req.headers_ = req'.headers_

/-- The chunks, one after another on a fresh connection, lead to no 400 and to
one request, the one that the same bytes give in a single chunk. -/
def ChunkingIndependent (chunks : List Chunk) : Prop :=
  ∃ final calls request,
    run deliver {} chunks = .ok (final, calls) ∧
    (∀ call ∈ calls, .send badRequest ∉ call.output) ∧
    calls.flatMap (fun call => dispatched call.output) = [request] ∧
    ∀ t, ∃ final' calls' whole,
      run deliver {} [{ data := chunks.flatMap (·.data), receiveTime := t }] =
        .ok (final', calls') ∧
      calls'.flatMap (fun call => dispatched call.output) = [whole] ∧
      request.SameFields whole

theorem send_of_expectHeaders {s s' : Session} {chunk : Chunk}
    {actions : List Action} (hs : s.Inv)
    (hstate : s.context_.state_ ≠ .kExpectRequestLine)
    (hstep : deliver s chunk = .ok (s', actions)) :
    .send badRequest ∈ actions := by
  obtain ⟨buf, _, _, _, hcases⟩ := deliver_cases hs hstep
  rcases hcases with ⟨ok, hwaits, hactions⟩ |
    ⟨ok, request, rest, body, hends, _, _, hactions⟩
  · rw [hactions, hwaits.ok_eq_false hstate]
    exact List.mem_cons_self
  · have hok := hends.ok_eq
    rw [decide_eq_false hstate] at hok
    rw [hactions, send_mem_rejection ok _ (by simp)]
    exact hok

/-- A first chunk that is not the whole head leads to 400, at once or with the
second chunk. -/
theorem not_independent_of_two {head : RequestHead} {chunk₁ chunk₂ : Chunk}
    {chunks : List Chunk} (h₂ : chunk₂.data ≠ [])
    (htext : (chunk₁ :: chunk₂ :: chunks).flatMap (·.data) = head.text) :
    ¬ ChunkingIndependent (chunk₁ :: chunk₂ :: chunks) := by
  intro h
  obtain ⟨final, calls, _, hrun, hclean, _⟩ := h
  obtain ⟨middle, output₁, rest₁, hfirst, hrest, rfl⟩ := run_cons_eq_ok.mp hrun
  obtain ⟨next, output₂, rest₂, hsecond, _, rfl⟩ := run_cons_eq_ok.mp hrest
  have hclean₁ := hclean _ List.mem_cons_self
  have hclean₂ := hclean _ (List.mem_cons_of_mem _ List.mem_cons_self)
  obtain ⟨buf, _, hread, hmiddle, hcases⟩ :=
    deliver_cases Session.inv_fresh hfirst
  have hsplit : buf.readable ++ (chunk₂.data ++ chunks.flatMap (·.data)) =
      head.text ++ [] := by
    rw [hread, ← htext]
    simp [initial_readable]
  have hmore : ([] : Bytes).length <
      (chunk₂.data ++ chunks.flatMap (·.data)).length := by
    have hpos := List.length_pos_iff.mpr h₂
    rw [List.length_append, List.length_nil]
    omega
  obtain ⟨_, _, _, hshort⟩ :=
    head.headWaits_of_short hsplit hmore {} chunk₁.receiveTime
  rcases hcases with ⟨ok, hwaits, hactions⟩ | ⟨_, _, _, _, hends, _⟩
  · by_cases hstate : middle.context_.state_ = .kExpectRequestLine
    · apply hclean₁
      rw [hactions, hwaits.ok_eq_false_of_after hstate]
      exact List.mem_cons_self
    · exact hclean₂ (send_of_expectHeaders hmiddle hstate hsecond)
  · exact hshort.not_headEnds hends

theorem deliver_head (head : RequestHead) (hmethod : head.line.method ≠ .kPost)
    (req : HttpRequest) {chunk : Chunk} (hdata : chunk.data = head.text)
    (harrival : chunk.arrival = .append) (hlength : head.text.length < 2 ^ 31) :
    ∃ s, deliver { context_ := ⟨.kExpectRequestLine, req⟩ } chunk =
      .ok (s, [.onRequest (head.request req chunk.receiveTime)]) := by
  have hreturns : Returns (initial.append chunk.data) := by
    apply append_returns initial_inv
    apply Takes.of_lt
    · rw [hdata]
      exact hlength
    · rw [hdata]
      have hwriter : initial.writerIndex_ = 8 := rfl
      exact (lt_maxSize (by omega)).le
  obtain ⟨buf, happend⟩ := hreturns
  have hreceive : initial.receive chunk = .ok buf := by
    unfold receive
    rw [harrival]
    exact happend
  have hread : buf.readable = head.text ++ [] := by
    rw [(append_spec initial_inv happend).2.1, initial_readable, hdata]
    simp
  have hends := head.headEnds chunk.receiveTime req []
  rw [← hread] at hends
  have hs : (Session.mk ⟨.kExpectRequestLine, req⟩ initial).Inv :=
    ⟨initial_inv, .inl rfl⟩
  have hcall := deliver_of_headEnds hs hreceive hends
  have hpost : (head.request req chunk.receiveTime).method_ ≠ .kPost := by
    rw [RequestHead.request_method_]
    exact hmethod
  unfold expectBody at hcall
  rw [if_neg hpost] at hcall
  exact ⟨_, hcall⟩

theorem run_head (head : RequestHead) (hmethod : head.line.method ≠ .kPost)
    (req : HttpRequest) {chunk : Chunk} (hdata : chunk.data = head.text)
    (harrival : chunk.arrival = .append) (hlength : head.text.length < 2 ^ 31) :
    ∃ s, run deliver { context_ := ⟨.kExpectRequestLine, req⟩ } [chunk] =
      .ok (s, [⟨{ context_ := ⟨.kExpectRequestLine, req⟩ }, chunk,
        [.onRequest (head.request req chunk.receiveTime)]⟩]) := by
  obtain ⟨s, hcall⟩ := deliver_head head hmethod req hdata harrival hlength
  exact ⟨s, run_cons_eq_ok.mpr ⟨s, _, [], hcall, rfl, rfl⟩⟩

/-- Chunking makes no difference exactly when there is one chunk, and one that
`Buffer::append` can take. -/
theorem chunkingIndependent_iff (head : RequestHead)
    (hmethod : head.line.method ≠ .kPost) {chunks : List Chunk}
    (htext : chunks.flatMap (·.data) = head.text)
    (hne : ∀ chunk ∈ chunks, chunk.data ≠ [])
    (happend : ∀ chunk ∈ chunks, chunk.arrival = .append) :
    ChunkingIndependent chunks ↔
      chunks.length = 1 ∧ head.text.length < 2 ^ 31 := by
  match chunks with
  | [] => exact absurd htext.symm head.text_ne_nil
  | chunk₁ :: chunk₂ :: chunks =>
      apply iff_of_false
      · exact not_independent_of_two (hne chunk₂ (by simp)) htext
      · simp
  | [chunk] =>
      have hdata : chunk.data = head.text := by simpa using htext
      have harrival := happend chunk (by simp)
      constructor
      · intro h
        obtain ⟨_, _, _, hrun, _⟩ := h
        obtain ⟨_, _, _, hcall, _⟩ := run_cons_eq_ok.mp hrun
        obtain ⟨buf, hreceive, _⟩ := bind_eq_ok.mp hcall
        unfold receive at hreceive
        rw [harrival] at hreceive
        refine ⟨rfl, ?_⟩
        rw [← hdata]
        exact append_initial_lt hreceive
      · intro h
        obtain ⟨s, hrun⟩ := run_head head hmethod {} hdata harrival h.2
        refine ⟨s, _, _, hrun, by simp, rfl, ?_⟩
        intro t
        let whole : Chunk := { data := [chunk].flatMap (·.data), receiveTime := t }
        have hwhole : whole.data = head.text := htext
        obtain ⟨s', hrun'⟩ := run_head head hmethod {} hwhole rfl h.2
        exact ⟨s', _, _, hrun', rfl, ⟨rfl, rfl, rfl, rfl, rfl⟩⟩

def getRoot : RequestHead where
  line := .root .kGet (by decide)
  fields := []
  line_free := free_of_notMem (a := 13) (by decide) (by decide)
  fields_free := by simp
  fields_colon := by simp

theorem chunkingIndependent_getRoot :
    ChunkingIndependent [{ data := getRoot.text }] :=
  (chunkingIndependent_iff getRoot (by decide) rfl (by decide) (by decide)).mpr
    ⟨rfl, by decide⟩

theorem not_chunkingIndependent_getRoot :
    [({ data := ascii "GET / HTTP/1.1\r\n" } : Chunk), { data := kCRLF }].flatMap
        (·.data) = getRoot.text ∧
      ¬ ChunkingIndependent
        [{ data := ascii "GET / HTTP/1.1\r\n" }, { data := kCRLF }] :=
  have htext : [({ data := ascii "GET / HTTP/1.1\r\n" } : Chunk),
      { data := kCRLF }].flatMap (·.data) = getRoot.text := rfl
  ⟨htext, not_independent_of_two kCRLF_ne_nil htext⟩

end MyFileServer
