import MyFileServer.Http.ParserFrame
import MyFileServer.Http.SessionBody

/-!
# The next request

What the unread bytes of a connection can still become.  When they are the
beginning of a request line of another method than POST, some bytes lead to
the handler of a request without a body; when they are not, whatever arrives
leads to a POST first, or to none at all.
-/

namespace MyFileServer

open Execution Delimiter Buffer

theorem HeadWaits.free_of_headEnds {t t' : Timestamp} {context after : HttpContext}
    {text unread more rest : Bytes} {ok ok' : Bool} {request : HttpRequest}
    (hwaits : HeadWaits t context text ok after unread)
    (hends : HeadEnds t' context (text ++ more) ok' request rest) :
    Free kCRLF unread := by
  cases hwaits with
  | line hfree => exact hfree
  | @refused _ _ line rest₁ hline hrefuse =>
      obtain ⟨line₂, more₂, req₂, _, _, htext, hline₂, haccept, _⟩ := hends.requestLine
      rw [List.append_assoc _ rest₁ more] at htext
      have hcut := line_cancel kCRLF_unbordered hline hline₂ htext
      rw [hcut.1, haccept] at hrefuse
      cases hrefuse
  | accepted _ _ hopen => exact hopen.tail_free
  | headers hopen => exact hopen.tail_free

theorem HeadEnds.not_free {t : Timestamp} {context : HttpContext} {text rest : Bytes}
    {ok : Bool} {request : HttpRequest}
    (hends : HeadEnds t context text ok request rest) : ¬ Free kCRLF text := by
  cases hends with
  | accepted => exact not_free_append_delimiter _ _ _
  | headers hclosed =>
      rw [hclosed.text_eq]
      exact not_free_append_delimiter _ _ _

/-- The first request that the calls hand over has no body to read. -/
def FirstBodiless (calls : List MessageCall) : Prop :=
  ∃ req ∈ (requests calls).head?, req.method_ ≠ .kPost

theorem deliver_bodiless {s : Session} {chunk : Chunk} {buf : Buffer} (hs : s.Inv)
    (hreceive : s.inputBuffer_.receive chunk = .ok buf) {ok : Bool}
    {request : HttpRequest} {rest : Bytes}
    (hends : HeadEnds chunk.receiveTime s.context_ buf.readable ok request rest)
    (hmethod : request.method_ ≠ .kPost) :
    ∃ s', deliver s chunk = .ok (s', rejection ok ++ [.onRequest request]) := by
  rw [deliver_of_headEnds hs hreceive hends]
  unfold expectBody
  rw [if_neg hmethod]
  exact ⟨_, rfl⟩

theorem firstBodiless_of_bodiless {s s' : Session} {chunk : Chunk} {ok : Bool}
    {request : HttpRequest} (hmethod : request.method_ ≠ .kPost)
    (hstep : deliver s chunk = .ok (s', rejection ok ++ [.onRequest request])) :
    ∃ final calls, run deliver s [chunk] = .ok (final, calls) ∧ FirstBodiless calls := by
  refine ⟨s', _, run_cons_eq_ok.mpr ⟨s', _, [], hstep, rfl, rfl⟩, request, ?_, hmethod⟩
  simp [requests]

theorem FirstBodiless.of_later {call : MessageCall} {calls : List MessageCall}
    (hnone : dispatched call.output = []) (hfirst : FirstBodiless calls) :
    FirstBodiless (call :: calls) := by
  have hsame : requests (call :: calls) = requests calls := by
    simp [requests, hnone]
  unfold FirstBodiless
  rw [hsame]
  exact hfirst

/-- A chunk that hands nothing over comes before the chunks that do. -/
theorem exists_firstBodiless_cons {s next : Session} {chunk : Chunk} {ok : Bool}
    (hstep : deliver s chunk = .ok (next, rejection ok))
    (hlater : ∃ chunks final calls, run deliver next chunks = .ok (final, calls) ∧
      FirstBodiless calls) :
    ∃ chunks final calls, run deliver s chunks = .ok (final, calls) ∧
      FirstBodiless calls := by
  obtain ⟨chunks, final, calls, hrun, hfirst⟩ := hlater
  refine ⟨chunk :: chunks, final, _, run_cons_eq_ok.mpr ⟨next, _, calls, hstep, hrun, rfl⟩, ?_⟩
  exact hfirst.of_later (dispatched_rejection ok)

theorem receive_byte {b : Buffer} (hb : b.Inv)
    (hroom : kCheapPrepend + b.readable.length + 1 ≤ maxSize) (c : UInt8) :
    ∃ b', b.receive { data := [c] } = .ok b' := by
  have hlength := length_readable hb
  have hreader := hb.reader_le
  have hwriter := hb.writer_le
  have hcheap : kCheapPrepend = 8 := rfl
  unfold readableBytes at hlength
  apply append_returns hb
  unfold Takes writableBytes prependableBytes
  simp only [List.length_singleton]
  omega

theorem HeadEnds.three_le {t : Timestamp} {context : HttpContext}
    {text more rest : Bytes} {ok : Bool} {request : HttpRequest}
    (hstate : context.state_ = .kExpectRequestLine) (hfree : Free kCRLF text)
    (hends : HeadEnds t context (text ++ more) ok request rest) : 3 ≤ more.length := by
  rcases context with ⟨state, req⟩
  simp only at hstate
  subst hstate
  obtain ⟨line, block, _, fields, last, htext, _, _, hclosed, _⟩ := hends.requestLine
  by_contra hshort
  have hblock := length_closed_le hclosed
  have hlength := congrArg List.length htext
  simp only [List.length_append] at hlength
  have hwhole : line ++ kCRLF <+: text ++ more := by
    rw [htext]
    exact List.prefix_append _ _
  have hbegins : line ++ kCRLF <+: text := by
    apply List.prefix_of_prefix_length_le hwhole (List.prefix_append text more)
    rw [List.length_append]
    omega
  obtain ⟨back, rfl⟩ := hbegins
  exact not_free_append_delimiter _ _ _ hfree

theorem HeadWaits.length_le {t : Timestamp} {context after : HttpContext}
    {text unread : Bytes} {ok : Bool}
    (hwaits : HeadWaits t context text ok after unread) :
    unread.length ≤ text.length ∧
      (after.state_ = .kExpectHeaders → context.state_ = .kExpectRequestLine →
        unread.length + 4 ≤ text.length) := by
  cases hwaits with
  | line hfree =>
      exact ⟨le_rfl, fun hafter hbefore => by cases hbefore.symm.trans hafter⟩
  | refused => exact ⟨le_rfl, fun hafter => by cases hafter⟩
  | @accepted _ _ line more tail fields _ haccept hopen =>
      obtain ⟨parsed, rfl, _⟩ := exists_requestLine_of_accepted haccept
      have htail := length_fields_le hopen.text_eq
      have hcrlf : kCRLF.length = 2 := rfl
      have hline : 2 ≤ parsed.text.length := by
        simp only [RequestLine.text, List.length_append, List.length_cons]
        omega
      simp only [List.length_append]
      omega
  | headers hopen =>
      have htail := length_fields_le hopen.text_eq
      exact ⟨by omega, fun _ hbefore => by cases hbefore⟩

/-- What is still to come fits behind what the parser leaves. -/
theorem HeadWaits.room {t : Timestamp} {context after : HttpContext} {text unread : Bytes}
    {ok : Bool} (hwaits : HeadWaits t context text ok after unread) (hafter : after.AtHead)
    {left : ℕ}
    (hroom : kCheapPrepend + (text.length + left) ≤
      maxSize + if context.state_ = .kExpectRequestLine then 2 else 0) :
    kCheapPrepend + (unread.length + left) ≤
      maxSize + if after.state_ = .kExpectRequestLine then 2 else 0 := by
  have hlength := hwaits.length_le
  rcases hafter with hafter | hafter
  · rw [if_pos hafter]
    split at hroom <;> omega
  · rw [hafter, if_neg (by simp)]
    split at hroom
    next hstate =>
      have hspent := hlength.2 hafter hstate
      omega
    next => omega

theorem HeadEnds.method_eq {t t' : Timestamp} {context : HttpContext}
    {text more rest rest' : Bytes} {ok ok' : Bool} {request request' : HttpRequest}
    (hends : HeadEnds t context (text ++ more) ok request rest)
    (hends' : HeadEnds t' context text ok' request' rest') :
    request'.method_ = request.method_ := by
  obtain ⟨t'', hsame⟩ := hends.at_time t'
  rw [((hends'.append more).unique hsame).2.1]
  rfl

/-- The bytes of a head without body, one after another, reach the handler. -/
theorem exists_firstBodiless {s : Session} (hs : s.Inv)
    (hfree : Free kCRLF s.inputBuffer_.readable) {more : Bytes} {t : Timestamp} {ok : Bool}
    {request : HttpRequest} {rest : Bytes}
    (hends : HeadEnds t s.context_ (s.inputBuffer_.readable ++ more) ok request rest)
    (hmethod : request.method_ ≠ .kPost)
    (hroom : kCheapPrepend + (s.inputBuffer_.readable.length + more.length) ≤
      maxSize + if s.context_.state_ = .kExpectRequestLine then 2 else 0) :
    ∃ chunks final calls, run deliver s chunks = .ok (final, calls) ∧
      FirstBodiless calls := by
  induction more generalizing s t ok request with
  | nil =>
      rw [List.append_nil] at hends
      exact absurd hfree hends.not_free
  | cons c more ih =>
      have hbyte : kCheapPrepend + s.inputBuffer_.readable.length + 1 ≤ maxSize := by
        rw [List.length_cons] at hroom
        by_cases hstate : s.context_.state_ = .kExpectRequestLine
        · have hthree := HeadEnds.three_le hstate hfree hends
          rw [List.length_cons] at hthree
          rw [if_pos hstate] at hroom
          omega
        · rw [if_neg hstate] at hroom
          omega
      obtain ⟨buf, hreceive⟩ := receive_byte hs.buffer hbyte c
      have hread := (receive_spec hs.buffer hreceive).2.1
      have hsplit : s.inputBuffer_.readable ++ c :: more = buf.readable ++ more := by
        rw [hread, List.append_assoc]
        rfl
      rw [hsplit] at hends
      rcases headWaits_or_headEnds {} hs.head buf.readable with
        ⟨ok', after, unread, hwaits⟩ | ⟨ok', request', rest', hends'⟩
      · obtain ⟨buf', hstep, hnext, hunread⟩ := deliver_of_headWaits hs hreceive hwaits
        have hlater : ∃ ok' t'', HeadEnds t after (unread ++ more) ok'
            (request.setReceiveTime t'') rest :=
          hwaits.resume hends
        obtain ⟨ok'', t'', hresume⟩ := hlater
        have hunfree := hwaits.free_of_headEnds hends
        have hread' : buf.readable.length = s.inputBuffer_.readable.length + 1 := by
          rw [hread, List.length_append]
          rfl
        have hroom' := @HeadWaits.room _ _ _ _ _ _ hwaits hnext.head more.length (by
          rw [hread', Nat.add_assoc, Nat.add_comm 1]
          exact hroom)
        rw [← hunread] at hresume hunfree hroom'
        exact exists_firstBodiless_cons hstep (ih hnext hunfree hresume hmethod hroom')
      · have hmethod' : request'.method_ ≠ .kPost := by
          rw [hends.method_eq hends']
          exact hmethod
        obtain ⟨s', hstep⟩ := deliver_bodiless hs hreceive hends' hmethod'
        exact ⟨_, firstBodiless_of_bodiless hmethod' hstep⟩

theorem HeadWaits.of_requestLine {t : Timestamp} {req : HttpRequest} {after : HttpContext}
    {line : RequestLine} {text unread : Bytes} {ok : Bool} (hline : Free kCRLF line.text)
    (hwaits : HeadWaits t ⟨.kExpectRequestLine, req⟩ (line.text ++ kCRLF ++ text)
      ok after unread) :
    after.state_ = .kExpectHeaders ∧ after.request_.method_ = line.method ∧
      Free kCRLF unread := by
  generalize hcontext : HttpContext.mk .kExpectRequestLine req = context at hwaits
  generalize htext : line.text ++ kCRLF ++ text = whole at hwaits
  cases hwaits with
  | line hfree =>
      rw [← htext] at hfree
      exact absurd hfree (not_free_append_delimiter _ _ _)
  | refused hline₂ hrefuse =>
      have hcut := line_cancel kCRLF_unbordered hline hline₂ htext
      rw [← hcut.1, processRequestLine_text] at hrefuse
      cases hrefuse
  | accepted hline₂ haccept hopen =>
      have hcut := line_cancel kCRLF_unbordered hline hline₂ htext
      rw [← hcut.1, processRequestLine_text] at haccept
      cases haccept
      refine ⟨rfl, ?_, hopen.tail_free⟩
      rw [addFields_setReceiveTime, addFields_eq]
      exact line.read_method_ _
  | headers => cases hcontext

theorem HeadEnds.of_requestLine {t : Timestamp} {req request : HttpRequest}
    {line : RequestLine} {text rest : Bytes} {ok : Bool} (hline : Free kCRLF line.text)
    (hends : HeadEnds t ⟨.kExpectRequestLine, req⟩ (line.text ++ kCRLF ++ text)
      ok request rest) : request.method_ = line.method := by
  obtain ⟨line₂, _, _, _, _, htext, hline₂, haccept, _, _, rfl⟩ := hends.requestLine
  have hcut := line_cancel kCRLF_unbordered hline hline₂ htext
  rw [← hcut.1, processRequestLine_text] at haccept
  cases haccept
  rw [addFields_eq]
  exact line.read_method_ _

/-- Two line ends close the header section, whatever is on the line so far. -/
theorem exists_headEnds (t : Timestamp) (req : HttpRequest) {tail : Bytes}
    (htail : Free kCRLF tail) :
    ∃ request rest,
      HeadEnds t ⟨.kExpectHeaders, req⟩ (tail ++ (kCRLF ++ kCRLF)) false request rest ∧
        request.method_ = req.method_ := by
  by_cases hfield : IsField tail
  · have hclosed : ClosedBlock kCRLF IsField (tail ++ (kCRLF ++ kCRLF)) [tail] [] [] := by
      refine ⟨by simp, by simpa using htail, by simpa using hfield,
        free_nil kCRLF_ne_nil, by simp [IsField]⟩
    exact ⟨_, _, .headers hclosed, rfl⟩
  · have hclosed : ClosedBlock kCRLF IsField (tail ++ (kCRLF ++ kCRLF)) [] tail kCRLF :=
      ⟨by simp, by simp, by simp, htail, hfield⟩
    exact ⟨_, _, .headers hclosed, rfl⟩

theorem headEnds_bare (t : Timestamp) (req : HttpRequest) {line : RequestLine}
    (hline : Free kCRLF line.text) :
    HeadEnds t ⟨.kExpectRequestLine, req⟩ (line.text ++ kCRLF ++ kCRLF) true
      ((line.read req).setReceiveTime t) [] := by
  have hclosed : ClosedBlock kCRLF IsField kCRLF [] [] [] :=
    ⟨by simp, by simp, by simp, free_nil kCRLF_ne_nil, by simp [IsField]⟩
  exact headEnds_of_requestLine t hline (processRequestLine_text line req) hclosed

theorem receive_nothing {b : Buffer} (hb : b.Inv) :
    ∃ b', b.receive { data := [] } = .ok b' :=
  append_returns hb (.inl (Nat.zero_le b.writableBytes))

/-- A request line that has arrived and is not POST leads to its handler. -/
theorem exists_firstBodiless_of_line {s : Session} (hs : s.Inv)
    (hkeeps : s.inputBuffer_.KeepsPrepend)
    (hstate : s.context_.state_ = .kExpectRequestLine) {line : RequestLine}
    (hmethod : line.method ≠ .kPost) (hline : Free kCRLF line.text)
    (hbegins : line.text ++ kCRLF <+: s.inputBuffer_.readable) :
    ∃ chunks final calls, run deliver s chunks = .ok (final, calls) ∧
      FirstBodiless calls := by
  rcases s with ⟨⟨state, req⟩, b⟩
  simp only at hstate
  subst hstate
  obtain ⟨buf, hreceive⟩ := receive_nothing hs.buffer
  have hread := (receive_spec hs.buffer hreceive).2.1
  rw [List.append_nil] at hread
  obtain ⟨text, htext⟩ := hbegins
  have hwhole : buf.readable = line.text ++ kCRLF ++ text := hread.trans htext.symm
  rcases headWaits_or_headEnds {} hs.head buf.readable with
    ⟨ok, after, unread, hwaits⟩ | ⟨ok, request, rest, hends⟩
  · obtain ⟨buf', hstep, hnext, hunread⟩ := deliver_of_headWaits hs hreceive hwaits
    have hlength := hwaits.length_le
    rw [hwhole] at hwaits
    obtain ⟨hafter, hkept, hfree⟩ := hwaits.of_requestLine hline
    rw [← hunread] at hfree hlength
    have hspent := hlength.2 hafter rfl
    rcases after with ⟨state, request⟩
    simp only at hafter
    subst hafter
    obtain ⟨request', rest, hends, hsame⟩ := exists_headEnds {} request hfree
    have hmethod' : request'.method_ ≠ .kPost := by
      rw [hsame, hkept]
      exact hmethod
    have hroom : kCheapPrepend + (buf'.readable.length + (kCRLF ++ kCRLF).length) ≤
        maxSize + if (HttpRequestParseState.kExpectHeaders) = .kExpectRequestLine then 2
          else 0 := by
      have hfits := hkeeps.length_le hs.buffer
      rw [hread] at hspent
      have htwo : (kCRLF ++ kCRLF).length = 4 := rfl
      rw [htwo, if_neg (by simp)]
      simp only at hfits hspent
      omega
    exact exists_firstBodiless_cons hstep
      (exists_firstBodiless hnext hfree hends hmethod' hroom)
  · have hsame : request.method_ = line.method := by
      rw [hwhole] at hends
      exact hends.of_requestLine hline
    have hmethod' : request.method_ ≠ .kPost := by
      rw [hsame]
      exact hmethod
    obtain ⟨s', hstep⟩ := deliver_bodiless hs hreceive hends hmethod'
    exact ⟨_, firstBodiless_of_bodiless hmethod' hstep⟩

/-- The unread bytes are the beginning of a request line of another method than
POST, or begin with one, and the input buffer can hold it. -/
def StartsBodiless (unread : Bytes) : Prop :=
  ∃ line : RequestLine, line.method ≠ .kPost ∧ Free kCRLF line.text ∧
    kCheapPrepend + (line.text ++ kCRLF).length ≤ maxSize ∧
    (unread <+: line.text ++ kCRLF ∨ line.text ++ kCRLF <+: unread)

theorem StartsBodiless.exists_firstBodiless {s : Session} (hs : s.Inv)
    (hkeeps : s.inputBuffer_.KeepsPrepend)
    (hstate : s.context_.state_ = .kExpectRequestLine)
    (hstarts : StartsBodiless s.inputBuffer_.readable) :
    ∃ chunks final calls, run deliver s chunks = .ok (final, calls) ∧
      FirstBodiless calls := by
  obtain ⟨line, hmethod, hline, hfits, hbegins | hbegins⟩ := hstarts
  · rcases free_or_line kCRLF_ne_nil s.inputBuffer_.readable with
      hfree | ⟨front, back, hread, hfront⟩
    · rcases s with ⟨⟨state, req⟩, b⟩
      simp only at hstate
      subst hstate
      obtain ⟨missing, hmissing⟩ := hbegins
      have hends := headEnds_bare {} req hline
      rw [← hmissing, List.append_assoc] at hends
      have hlength := congrArg List.length hmissing
      have hcrlf : kCRLF.length = 2 := rfl
      refine MyFileServer.exists_firstBodiless hs hfree hends ?_ ?_
      · change (line.read req).method_ ≠ .kPost
        rw [line.read_method_]
        exact hmethod
      · rw [if_pos rfl, List.length_append, hcrlf]
        rw [List.length_append] at hlength
        omega
    · apply exists_firstBodiless_of_line hs hkeeps hstate hmethod hline
      obtain ⟨missing, hmissing⟩ := hbegins
      rw [hread, List.append_assoc _ back] at hmissing
      rw [← List.append_nil (line.text ++ kCRLF)] at hmissing
      have hcut := line_cancel kCRLF_unbordered hfront hline hmissing
      rw [hread, hcut.1]
      exact List.prefix_append _ _
  · exact exists_firstBodiless_of_line hs hkeeps hstate hmethod hline hbegins

theorem StartsBodiless.of_append {unread more : Bytes}
    (hstarts : StartsBodiless (unread ++ more)) : StartsBodiless unread := by
  obtain ⟨line, hmethod, hline, hfits, hbegins⟩ := hstarts
  refine ⟨line, hmethod, hline, hfits, ?_⟩
  rcases hbegins with hbegins | hbegins
  · exact .inl ((List.prefix_append _ _).trans hbegins)
  · exact List.prefix_or_prefix_of_prefix (List.prefix_append _ _) hbegins

/-- The next request that is handled, if there is one, is a POST. -/
structure NextPosts (s : Session) : Prop where
  inv : s.Inv
  keeps : s.inputBuffer_.KeepsPrepend
  next : (s.context_.state_ = .kExpectRequestLine ∧
      ¬ StartsBodiless s.inputBuffer_.readable) ∨
    (s.context_.state_ = .kExpectHeaders ∧ s.context_.request_.method_ = .kPost)

theorem method_of_not_startsBodiless {req req' : HttpRequest} {line more : Bytes}
    {buf : Buffer} (hbuf : buf.Inv) (hkeeps : buf.KeepsPrepend)
    (hread : buf.readable = line ++ kCRLF ++ more)
    (hnot : ¬ StartsBodiless buf.readable) (hline : Free kCRLF line)
    (haccept : processRequestLine req line = (true, req')) :
    req'.method_ = .kPost := by
  obtain ⟨parsed, rfl, rfl⟩ := exists_requestLine_of_accepted haccept
  rw [parsed.read_method_]
  by_contra hmethod
  have hfits := hkeeps.length_le hbuf
  apply hnot
  refine ⟨parsed, hmethod, hline, ?_, .inr ?_⟩
  · rw [hread, List.length_append] at hfits
    omega
  · rw [hread]
    exact List.prefix_append _ _

theorem addFields_method_ (req : HttpRequest) (fields : List Bytes) :
    (addFields req fields).method_ = req.method_ := by
  rw [addFields_eq]

theorem HeadWaits.nextPosts {t : Timestamp} {context after : HttpContext} {buf : Buffer}
    {unread : Bytes} {ok : Bool} (hbuf : buf.Inv) (hkeeps : buf.KeepsPrepend)
    (hwaits : HeadWaits t context buf.readable ok after unread)
    (hnext : (context.state_ = .kExpectRequestLine ∧ ¬ StartsBodiless buf.readable) ∨
      (context.state_ = .kExpectHeaders ∧ context.request_.method_ = .kPost)) :
    (after.state_ = .kExpectRequestLine ∧ ¬ StartsBodiless unread) ∨
      (after.state_ = .kExpectHeaders ∧ after.request_.method_ = .kPost) := by
  generalize htext : buf.readable = text at hwaits
  cases hwaits with
  | line =>
      rcases hnext with hnext | ⟨hstate, _⟩
      · rw [htext] at hnext
        exact .inl hnext
      · cases hstate
  | refused =>
      rcases hnext with hnext | ⟨hstate, _⟩
      · rw [htext] at hnext
        exact .inl hnext
      · cases hstate
  | accepted hline haccept =>
      rcases hnext with ⟨_, hnot⟩ | ⟨hstate, _⟩
      · have hpost := method_of_not_startsBodiless hbuf hkeeps htext hnot hline haccept
        refine .inr ⟨rfl, ?_⟩
        rw [addFields_method_]
        exact hpost
      · cases hstate
  | headers =>
      rcases hnext with ⟨hstate, _⟩ | ⟨_, hpost⟩
      · cases hstate
      · refine .inr ⟨rfl, ?_⟩
        rw [addFields_method_]
        exact hpost

theorem HeadEnds.method_of_nextPosts {t : Timestamp} {context : HttpContext} {buf : Buffer}
    {rest : Bytes} {ok : Bool} {request : HttpRequest} (hbuf : buf.Inv)
    (hkeeps : buf.KeepsPrepend)
    (hends : HeadEnds t context buf.readable ok request rest)
    (hnext : (context.state_ = .kExpectRequestLine ∧ ¬ StartsBodiless buf.readable) ∨
      (context.state_ = .kExpectHeaders ∧ context.request_.method_ = .kPost)) :
    request.method_ = .kPost := by
  generalize htext : buf.readable = text at hends
  cases hends with
  | accepted hline haccept =>
      rcases hnext with ⟨_, hnot⟩ | ⟨hstate, _⟩
      · have hpost := method_of_not_startsBodiless hbuf hkeeps htext hnot hline haccept
        rw [addFields_method_]
        exact hpost
      · cases hstate
  | headers =>
      rcases hnext with ⟨hstate, _⟩ | ⟨_, hpost⟩
      · cases hstate
      · rw [addFields_method_]
        exact hpost

theorem deliver_nextPosts {s s' : Session} {chunk : Chunk} {actions : List Action}
    (hs : NextPosts s) (hstep : deliver s chunk = .ok (s', actions)) :
    ¬ HandlesOther actions ∧ (dispatched actions = [] → NextPosts s') := by
  obtain ⟨buf, hreceive, hread, hinv, hcases⟩ := deliver_cases hs.inv hstep
  have hbuf := (receive_spec hs.inv.buffer hreceive).1
  have hkeeps := hs.keeps.receive hs.inv.buffer hreceive
  have hnext : (s.context_.state_ = .kExpectRequestLine ∧
      ¬ StartsBodiless buf.readable) ∨
      (s.context_.state_ = .kExpectHeaders ∧ s.context_.request_.method_ = .kPost) := by
    rw [hread]
    exact hs.next.imp_left fun h => ⟨h.1, mt StartsBodiless.of_append h.2⟩
  unfold HandlesOther
  rcases hcases with ⟨ok, hwaits, rfl⟩ | ⟨ok, request, rest, req, hends, hbody, _, rfl⟩
  · rw [dispatched_rejection]
    refine ⟨by simp, fun _ => ⟨hinv, deliver_keepsPrepend hs.inv hs.keeps hstep, ?_⟩⟩
    exact hwaits.nextPosts hbuf hkeeps hnext
  · rw [dispatched_handled]
    refine ⟨?_, by simp⟩
    rintro ⟨req', hmem, hother⟩
    rw [List.mem_singleton.mp hmem, (expectBody_spec (retrieve_inv hbuf _) hbody).2.2] at hother
    exact hother (hends.method_of_nextPosts hbuf hkeeps hnext)

theorem deliver_alike {s : Session} (hs : NextPosts s) (body : Bytes) (chunk : Chunk) :
    Execution.Alike (fun s s' => s' = s ∨ NextPosts s ∧ ∃ body, s' = s.withBody body)
      (deliver s chunk) (deliver (s.withBody body) chunk) := by
  have hcalls := deliver_withBody hs.inv chunk body
  generalize hcall : deliver s chunk = x at hcalls ⊢
  generalize deliver (s.withBody body) chunk = y at hcalls ⊢
  cases hcalls with
  | fault fault => exact rfl
  | @value r r' happart =>
      obtain ⟨hbodiless, hnext⟩ := deliver_nextPosts hs hcall
      rcases happart with rfl | hother | ⟨body', rfl, hnone⟩
      · exact ⟨rfl, .inl rfl⟩
      · exact absurd hother hbodiless
      · exact ⟨rfl, .inr ⟨hnext hnone, body', rfl⟩⟩

def outputs (s : Session) (chunks : List Chunk) : Exec (List (List Action)) :=
  (fun r => r.2.map (·.output)) <$> run deliver s chunks

theorem outputs_withBody {s : Session} (hs : NextPosts s) (body : Bytes)
    (chunks : List Chunk) : outputs s chunks = outputs (s.withBody body) chunks := by
  apply @run_alike _ _ _ _ _
    (fun _ s s' => s' = s ∨ NextPosts s ∧ ∃ body, s' = s.withBody body) Eq
  · rintro _ s s' chunk _ rfl (rfl | ⟨hs, body, rfl⟩)
    · cases deliver s' chunk with
      | error fault => exact rfl
      | ok r => exact ⟨rfl, .inl rfl⟩
    · exact deliver_alike hs body chunk
  · exact List.forall₂_same.mpr fun _ _ => rfl
  · exact .inr ⟨hs, body, rfl⟩

theorem body_eq_of_outputs {s s' : Session} (hs : s.Inv) (hs' : s'.Inv)
    {chunks : List Chunk} {final : Session} {calls : List MessageCall}
    (hrun : run deliver s chunks = .ok (final, calls)) (hfirst : FirstBodiless calls)
    (hsame : outputs s chunks = outputs s' chunks) : s.body = s'.body := by
  unfold outputs at hsame
  rw [hrun] at hsame
  obtain ⟨r, hrun', houtputs⟩ := map_eq_ok.mp hsame.symm
  have hrequests : requests r.2 = requests calls := by
    have hflat := congrArg (List.flatMap dispatched) houtputs
    simpa [requests, List.flatMap_map] using hflat
  obtain ⟨req, hreq, hmethod⟩ := hfirst
  have hbody := run_first_body hs hrun req hreq hmethod
  rw [← hrequests] at hreq
  exact hbody.symm.trans (run_first_body hs' hrun' req hreq hmethod)

end MyFileServer
