import MyFileServer.Http.RequestLine
import MyFileServer.Net.BufferQueue

/-!
# The head of a request

Up to the body the parser depends on the readable bytes alone.  `HeadWaits`
and `HeadEnds` say how it reads them, in terms of complete lines, without the
loop and without the buffer: the first when it has to wait for more bytes or
refuses the request line, the second when it meets the line that ends the
header section.  The two cover every text, and `parseRequest` follows them.
-/

namespace MyFileServer

open Execution Delimiter

theorem kCRLF_ne_nil : Buffer.kCRLF ≠ [] := by
  decide

theorem kCRLF_unbordered : Unbordered Buffer.kCRLF :=
  unbordered_pair (by decide)

namespace Buffer

theorem findCRLF_eq_none {b : Buffer} (hb : b.Inv)
    (hfree : Free kCRLF b.readable) : b.findCRLF = none := by
  have hlength := length_readable hb
  have hreader := hb.reader_le
  unfold readableBytes at hlength
  have hend : b.peek + search kCRLF b.readable = b.writerIndex_ := by
    rw [(search_eq_length_iff kCRLF_ne_nil _).mpr hfree, hlength]
    unfold peek
    omega
  unfold findCRLF
  exact if_pos hend

theorem findCRLF_eq_some {b : Buffer} (hb : b.Inv) {line rest : Bytes}
    (hread : b.readable = line ++ kCRLF ++ rest) (hline : Free kCRLF line) :
    b.findCRLF = some (b.peek + line.length) := by
  have hlength := length_readable hb
  have hsearch : search kCRLF b.readable = line.length := by
    rw [hread]
    exact search_line kCRLF_ne_nil kCRLF_unbordered hline rest
  unfold readableBytes at hlength
  rw [hread, List.length_append, List.length_append] at hlength
  have hcrlf : kCRLF.length = 2 := rfl
  have hend : b.peek + line.length ≠ b.writerIndex_ := by
    unfold peek
    omega
  unfold findCRLF
  simp only [hsearch]
  exact if_neg hend

theorem load_line {b : Buffer} (hb : b.Inv) (region : Region)
    {line rest : Bytes} (hread : b.readable = line ++ rest) :
    b.load region b.peek line.length = .ok line := by
  have hlength := length_readable hb
  have hwriter := hb.writer_le
  have hreader := hb.reader_le
  unfold readableBytes at hlength
  rw [hread, List.length_append] at hlength
  have hfit : b.readerIndex_ + line.length ≤ b.writerIndex_ := by omega
  have hlimit : b.peek + line.length ≤ b.limit region := by
    cases region with
    | readable => exact hfit
    | storage => exact hfit.trans hwriter
  have htake : b.readable.take line.length = line := by
    rw [hread]
    exact List.take_left' rfl
  unfold load
  rw [if_pos ⟨le_rfl, hlimit⟩]
  unfold readable at htake
  unfold peek
  rw [Window.window_take hfit, htake]

theorem retrieveUntil_line (b : Buffer) (line : Bytes) :
    b.retrieveUntil (b.peek + line.length + 2) =
      b.retrieve (line ++ kCRLF).length := by
  have hlength : (line ++ kCRLF).length = line.length + 2 := by
    rw [List.length_append]
    rfl
  unfold retrieveUntil
  rw [hlength]
  congr 1
  omega

theorem retrieve_retrieve (b : Buffer) (m n : ℕ) :
    (b.retrieve m).retrieve n = b.retrieve (m + n) := by
  unfold retrieve retrieveAll readableBytes
  by_cases hm : m < b.writerIndex_ - b.readerIndex_
  · simp only [if_pos hm]
    by_cases hn : n < b.writerIndex_ - (b.readerIndex_ + m)
    · rw [if_pos hn, if_pos (by omega), Nat.add_assoc]
    · rw [if_neg hn, if_neg (by omega)]
  · simp only [if_neg hm]
    rw [if_neg (by omega), if_neg (by omega)]

end Buffer

open Buffer

/-! ## How a text reads -/

/-- A line of the header section that is not its end. -/
def IsField (line : Bytes) : Prop :=
  chr ':' ∈ line

instance (line : Bytes) : Decidable (IsField line) :=
  inferInstanceAs (Decidable (_ ∈ _))

def addField (req : HttpRequest) (line : Bytes) : HttpRequest :=
  req.addHeader line (line.idxOf (chr ':'))

def addFields (req : HttpRequest) (fields : List Bytes) : HttpRequest :=
  fields.foldl addField req

/-- `text` does not reach the end of the header section.  The last three
arguments are the result of `parseRequest`, the context that it leaves and
the bytes that stay unread. -/
inductive HeadWaits (t : Timestamp) :
    HttpContext → Bytes → Bool → HttpContext → Bytes → Prop
  | line {req : HttpRequest} {text : Bytes} :
      Free kCRLF text →
      HeadWaits t ⟨.kExpectRequestLine, req⟩ text
        false ⟨.kExpectRequestLine, req⟩ text
  | refused {req req' : HttpRequest} {line rest : Bytes} :
      Free kCRLF line → processRequestLine req line = (false, req') →
      HeadWaits t ⟨.kExpectRequestLine, req⟩ (line ++ kCRLF ++ rest)
        false ⟨.kExpectRequestLine, req'⟩ (line ++ kCRLF ++ rest)
  | accepted {req req' : HttpRequest} {line text tail : Bytes}
      {fields : List Bytes} :
      Free kCRLF line → processRequestLine req line = (true, req') →
      OpenBlock kCRLF IsField text fields tail →
      HeadWaits t ⟨.kExpectRequestLine, req⟩ (line ++ kCRLF ++ text)
        true ⟨.kExpectHeaders, addFields (req'.setReceiveTime t) fields⟩ tail
  | headers {req : HttpRequest} {text tail : Bytes} {fields : List Bytes} :
      OpenBlock kCRLF IsField text fields tail →
      HeadWaits t ⟨.kExpectHeaders, req⟩ text
        false ⟨.kExpectHeaders, addFields req fields⟩ tail

/-- `text` reaches the end of the header section.  The last three arguments
are the value of `ok` there, the request, and the bytes that follow. -/
inductive HeadEnds (t : Timestamp) :
    HttpContext → Bytes → Bool → HttpRequest → Bytes → Prop
  | accepted {req req' : HttpRequest} {line text last rest : Bytes}
      {fields : List Bytes} :
      Free kCRLF line → processRequestLine req line = (true, req') →
      ClosedBlock kCRLF IsField text fields last rest →
      HeadEnds t ⟨.kExpectRequestLine, req⟩ (line ++ kCRLF ++ text)
        true (addFields (req'.setReceiveTime t) fields) rest
  | headers {req : HttpRequest} {text last rest : Bytes}
      {fields : List Bytes} :
      ClosedBlock kCRLF IsField text fields last rest →
      HeadEnds t ⟨.kExpectHeaders, req⟩ text false (addFields req fields) rest

theorem fields_open_or_closed (text : Bytes) :
    (∃ fields tail, OpenBlock kCRLF IsField text fields tail) ∨
      ∃ fields last rest, ClosedBlock kCRLF IsField text fields last rest :=
  open_or_closed kCRLF_ne_nil text

/-- Between two calls the parser expects a request line or headers. -/
def HttpContext.AtHead (context : HttpContext) : Prop :=
  context.state_ = .kExpectRequestLine ∨ context.state_ = .kExpectHeaders

theorem headWaits_or_headEnds (t : Timestamp) {context : HttpContext}
    (hcontext : context.AtHead) (text : Bytes) :
    (∃ ok after unread, HeadWaits t context text ok after unread) ∨
      ∃ ok request rest, HeadEnds t context text ok request rest := by
  rcases context with ⟨state, req⟩
  rcases hcontext with hstate | hstate <;> simp only at hstate <;> subst hstate
  · rcases free_or_line kCRLF_ne_nil text with hfree | ⟨line, more, rfl, hline⟩
    · exact .inl ⟨_, _, _, .line hfree⟩
    cases haccept : processRequestLine req line with
    | mk ok req' =>
        cases ok with
        | false => exact .inl ⟨_, _, _, .refused hline haccept⟩
        | true =>
            rcases fields_open_or_closed more with
              ⟨fields, tail, hopen⟩ | ⟨fields, last, rest, hclosed⟩
            · exact .inl ⟨_, _, _, .accepted hline haccept hopen⟩
            · exact .inr ⟨_, _, _, .accepted hline haccept hclosed⟩
  · rcases fields_open_or_closed text with
      ⟨fields, tail, hopen⟩ | ⟨fields, last, rest, hclosed⟩
    · exact .inl ⟨_, _, _, .headers hopen⟩
    · exact .inr ⟨_, _, _, .headers hclosed⟩

/-! ## Reading in pieces -/

theorem addFields_append (req : HttpRequest) (fields₁ fields₂ : List Bytes) :
    addFields req (fields₁ ++ fields₂) =
      addFields (addFields req fields₁) fields₂ :=
  List.foldl_append

theorem addFields_setReceiveTime (req : HttpRequest) (t : Timestamp)
    (fields : List Bytes) :
    addFields (req.setReceiveTime t) fields =
      (addFields req fields).setReceiveTime t := by
  induction fields generalizing req with
  | nil => rfl
  | cons line fields ih => exact ih (addField req line)

theorem HeadEnds.suffix {t : Timestamp} {context : HttpContext}
    {text rest : Bytes} {ok : Bool} {request : HttpRequest}
    (hends : HeadEnds t context text ok request rest) : rest <:+ text := by
  cases hends with
  | accepted hline haccept hclosed =>
      exact hclosed.suffix.trans (List.suffix_append _ _)
  | headers hclosed => exact hclosed.suffix

theorem HeadEnds.append {t : Timestamp} {context : HttpContext}
    {text rest : Bytes} {ok : Bool} {request : HttpRequest}
    (hends : HeadEnds t context text ok request rest) (more : Bytes) :
    HeadEnds t context (text ++ more) ok request (rest ++ more) := by
  cases hends with
  | accepted hline haccept hclosed =>
      rw [List.append_assoc _ _ more]
      exact .accepted hline haccept (hclosed.append more)
  | headers hclosed => exact .headers (hclosed.append more)

theorem HeadEnds.requestLine {t : Timestamp} {req : HttpRequest}
    {text rest : Bytes} {ok : Bool} {request : HttpRequest}
    (hends : HeadEnds t ⟨.kExpectRequestLine, req⟩ text ok request rest) :
    ∃ line more req' fields last,
      text = line ++ kCRLF ++ more ∧ Free kCRLF line ∧
      processRequestLine req line = (true, req') ∧
      ClosedBlock kCRLF IsField more fields last rest ∧
      ok = true ∧ request = (addFields req' fields).setReceiveTime t := by
  generalize hcontext : HttpContext.mk .kExpectRequestLine req = context at hends
  cases hends with
  | accepted hline haccept hclosed =>
      cases hcontext
      exact ⟨_, _, _, _, _, rfl, hline, haccept, hclosed, rfl,
        addFields_setReceiveTime _ _ _⟩
  | headers hclosed => cases hcontext

theorem HeadEnds.atHeaders {t : Timestamp} {req : HttpRequest}
    {text rest : Bytes} {ok : Bool} {request : HttpRequest}
    (hends : HeadEnds t ⟨.kExpectHeaders, req⟩ text ok request rest) :
    ∃ fields last, ClosedBlock kCRLF IsField text fields last rest ∧
      ok = false ∧ request = addFields req fields := by
  generalize hcontext : HttpContext.mk .kExpectHeaders req = context at hends
  cases hends with
  | accepted hline haccept hclosed => cases hcontext
  | headers hclosed =>
      cases hcontext
      exact ⟨_, _, hclosed, rfl, rfl⟩

theorem headEnds_of_requestLine (t : Timestamp) {req req' : HttpRequest}
    {line more last rest : Bytes} {fields : List Bytes}
    (hline : Free kCRLF line)
    (haccept : processRequestLine req line = (true, req'))
    (hclosed : ClosedBlock kCRLF IsField more fields last rest) :
    HeadEnds t ⟨.kExpectRequestLine, req⟩ (line ++ kCRLF ++ more)
      true ((addFields req' fields).setReceiveTime t) rest := by
  rw [← addFields_setReceiveTime]
  exact .accepted hline haccept hclosed

theorem HeadEnds.unique {t : Timestamp} {context : HttpContext}
    {text rest₁ rest₂ : Bytes} {ok₁ ok₂ : Bool} {request₁ request₂ : HttpRequest}
    (h₁ : HeadEnds t context text ok₁ request₁ rest₁)
    (h₂ : HeadEnds t context text ok₂ request₂ rest₂) :
    ok₁ = ok₂ ∧ request₁ = request₂ ∧ rest₁ = rest₂ := by
  cases h₁ with
  | headers hclosed₁ =>
      rcases h₂.atHeaders with ⟨fields₂, last₂, hclosed₂, rfl, rfl⟩
      have hunique := hclosed₁.unique kCRLF_unbordered hclosed₂
      exact ⟨rfl, by rw [hunique.1], hunique.2.2⟩
  | accepted hline₁ haccept₁ hclosed₁ =>
      rcases h₂.requestLine with
        ⟨line₂, more₂, req₂, fields₂, last₂, htext, hline₂, haccept₂,
          hclosed₂, rfl, rfl⟩
      have hcut := line_cancel kCRLF_unbordered hline₁ hline₂ htext
      rw [hcut.1, haccept₂] at haccept₁
      rw [hcut.2] at hclosed₁
      have hunique := hclosed₁.unique kCRLF_unbordered hclosed₂
      have hreq := (Prod.mk.inj haccept₁).2
      rw [hunique.1, hreq, addFields_setReceiveTime]
      exact ⟨rfl, rfl, hunique.2.2⟩

theorem HeadEnds.of_append {t : Timestamp} {context : HttpContext}
    {text more rest : Bytes} {ok : Bool} {request : HttpRequest}
    (hends : HeadEnds t context (text ++ more) ok request rest)
    (hlong : more.length ≤ rest.length) :
    ∃ rest', rest = rest' ++ more ∧ HeadEnds t context text ok request rest' := by
  have hsuffix : more <:+ rest :=
    List.suffix_of_suffix_length_le (List.suffix_append text more)
      hends.suffix hlong
  rcases hsuffix with ⟨rest', rfl⟩
  refine ⟨rest', rfl, ?_⟩
  generalize hwhole : text ++ more = whole at hends
  cases hends with
  | @accepted _ _ line after _ _ _ hline haccept hclosed =>
      rcases hclosed.suffix with ⟨front, hfront⟩
      rw [← List.append_assoc] at hfront
      have htext : text = line ++ kCRLF ++ (front ++ rest') := by
        apply List.append_cancel_right
        rw [hwhole, ← hfront, List.append_assoc _ (front ++ rest') more]
      rw [← hfront] at hclosed
      rw [htext]
      exact .accepted hline haccept hclosed.of_append
  | headers hclosed =>
      rw [← hwhole] at hclosed
      exact .headers hclosed.of_append

theorem HeadEnds.at_time {t : Timestamp} {context : HttpContext}
    {text rest : Bytes} {ok : Bool} {request : HttpRequest}
    (hends : HeadEnds t context text ok request rest) (t' : Timestamp) :
    ∃ t'', HeadEnds t' context text ok (request.setReceiveTime t'') rest := by
  cases hends with
  | @accepted req req' line text last rest fields hline haccept hclosed =>
      have hrequest : addFields (req'.setReceiveTime t') fields =
          (addFields (req'.setReceiveTime t) fields).setReceiveTime t' := by
        rw [addFields_setReceiveTime, addFields_setReceiveTime]
        rfl
      refine ⟨t', ?_⟩
      rw [← hrequest]
      exact .accepted hline haccept hclosed
  | @headers req _ _ _ fields hclosed =>
      exact ⟨(addFields req fields).receiveTime_, .headers hclosed⟩

theorem HeadEnds.ok_eq {t : Timestamp} {context : HttpContext}
    {text rest : Bytes} {ok : Bool} {request : HttpRequest}
    (hends : HeadEnds t context text ok request rest) :
    ok = decide (context.state_ = .kExpectRequestLine) := by
  cases hends with
  | accepted => rfl
  | headers => rfl

theorem HeadWaits.not_headEnds {t t' : Timestamp} {context after : HttpContext}
    {text unread rest : Bytes} {ok ok' : Bool} {request : HttpRequest}
    (hwaits : HeadWaits t context text ok after unread)
    (hends : HeadEnds t' context text ok' request rest) : False := by
  cases hwaits with
  | line hfree =>
      rcases hends.requestLine with ⟨line, more, _, _, _, rfl, _⟩
      exact not_free_append_delimiter _ _ _ hfree
  | refused hline₁ hrefuse =>
      rcases hends.requestLine with
        ⟨line₂, more₂, req₂, _, _, htext, hline₂, haccept, _⟩
      have hcut := line_cancel kCRLF_unbordered hline₁ hline₂ htext
      rw [hcut.1, haccept] at hrefuse
      cases hrefuse
  | accepted hline₁ _ hopen =>
      rcases hends.requestLine with
        ⟨line₂, more₂, _, _, _, htext, hline₂, _, hclosed, _⟩
      have hcut := line_cancel kCRLF_unbordered hline₁ hline₂ htext
      rw [← hcut.2] at hclosed
      exact hopen.not_closed kCRLF_unbordered hclosed
  | headers hopen =>
      rcases hends.atHeaders with ⟨_, _, hclosed, _⟩
      exact hopen.not_closed kCRLF_unbordered hclosed

theorem headWaits_of_short {t : Timestamp} {context : HttpContext}
    (hcontext : context.AtHead) {text more rest : Bytes} {ok : Bool}
    {request : HttpRequest}
    (hends : HeadEnds t context (text ++ more) ok request rest)
    (hshort : rest.length < more.length) (t' : Timestamp) :
    ∃ ok' after unread, HeadWaits t' context text ok' after unread := by
  rcases headWaits_or_headEnds t' hcontext text with hwaits | hends'
  · exact hwaits
  · obtain ⟨_, _, rest', hends'⟩ := hends'
    obtain ⟨_, hends⟩ := hends.at_time t'
    have hrest := (hends.unique (hends'.append more)).2.2
    rw [hrest, List.length_append] at hshort
    omega

/-- If the whole of a text reaches the end of the header section, then what a
call has left unread and the bytes still to come reach it too, with the same
request up to its receive time. -/
theorem HeadWaits.resume {t t' t₀ : Timestamp} {context after : HttpContext}
    {text unread more rest : Bytes} {ok ok₀ : Bool} {request : HttpRequest}
    (hwaits : HeadWaits t context text ok after unread)
    (hends : HeadEnds t₀ context (text ++ more) ok₀ request rest) :
    ∃ ok' t'', HeadEnds t' after (unread ++ more) ok'
      (request.setReceiveTime t'') rest := by
  cases hwaits with
  | line hfree =>
      rcases hends.requestLine with
        ⟨line, rest', req', fields, last, htext, hline, haccept, hclosed, _, rfl⟩
      rw [htext]
      exact ⟨true, t', headEnds_of_requestLine t' hline haccept hclosed⟩
  | @refused _ req₁ line₁ rest₁ hline₁ hrefuse =>
      rcases hends.requestLine with
        ⟨line₂, more₂, req₂, _, _, htext, hline₂, haccept, _⟩
      rw [List.append_assoc _ rest₁ more] at htext
      have hcut := line_cancel kCRLF_unbordered hline₁ hline₂ htext
      rw [hcut.1, haccept] at hrefuse
      cases hrefuse
  | @accepted _ req₁ line₁ text₁ _ fields₁ hline₁ haccept₁ hopen =>
      rcases hends.requestLine with
        ⟨line₂, more₂, req₂, fields₂, last, htext, hline₂, haccept₂, hclosed,
          _, rfl⟩
      rw [List.append_assoc _ text₁ more] at htext
      have hcut := line_cancel kCRLF_unbordered hline₁ hline₂ htext
      rw [← hcut.1, haccept₁] at haccept₂
      have hreq := (Prod.mk.inj haccept₂).2
      rw [← hcut.2] at hclosed
      rcases hopen.resume kCRLF_unbordered hclosed with
        ⟨fields, hfields, hrest⟩
      have hrequest :
          addFields (addFields (req₁.setReceiveTime t) fields₁) fields =
            ((addFields req₂ fields₂).setReceiveTime t₀).setReceiveTime t := by
        rw [← addFields_append, ← hfields, addFields_setReceiveTime, hreq]
        rfl
      refine ⟨false, t, ?_⟩
      rw [← hrequest]
      exact .headers hrest
  | @headers req _ _ fields₁ hopen =>
      rcases hends.atHeaders with ⟨fields₂, last, hclosed, _, rfl⟩
      rcases hopen.resume kCRLF_unbordered hclosed with
        ⟨fields, hfields, hrest⟩
      refine ⟨false, (addFields req fields₂).receiveTime_, ?_⟩
      rw [hfields, addFields_append]
      exact .headers hrest

/-! ## The loop reads the text -/

section Loop

variable {region : Region} {t : Timestamp} {fuel : ℕ}

theorem parseLoop_stopped {s : ParseLoop} (hstop : s.hasMore = false) :
    parseLoop region t fuel s = .ok s := by
  cases fuel <;> simp [parseLoop, hstop] <;> rfl

theorem parseLoop_succ {s : ParseLoop} (hmore : s.hasMore = true) :
    parseLoop region t (fuel + 1) s =
      parseStep region t s >>= parseLoop region t fuel := by
  simp [parseLoop, hmore]

theorem parseLoop_step {s s' : ParseLoop} (hmore : s.hasMore = true)
    (hstep : parseStep region t s = .ok s') :
    parseLoop region t (fuel + 1) s = parseLoop region t fuel s' := by
  rw [parseLoop_succ hmore, hstep]
  rfl

/-- A run that ends within its fuel ends in the same way with more. -/
theorem parseLoop_add {s : ParseLoop}
    (hends : parseLoop region t fuel s ≠ .error .diverges) (more : ℕ) :
    parseLoop region t (fuel + more) s = parseLoop region t fuel s := by
  induction fuel generalizing s with
  | zero =>
      cases hmore : s.hasMore with
      | false => rw [parseLoop_stopped hmore, parseLoop_stopped hmore]
      | true => exact absurd (by simp [parseLoop, hmore]; rfl) hends
  | succ fuel ih =>
      cases hmore : s.hasMore with
      | false => rw [parseLoop_stopped hmore, parseLoop_stopped hmore]
      | true =>
          rw [parseLoop_succ hmore] at hends
          rw [Nat.add_right_comm, parseLoop_succ hmore, parseLoop_succ hmore]
          cases hstep : parseStep region t s with
          | error fault => rfl
          | ok next =>
              rw [hstep] at hends
              exact ih hends

variable {req : HttpRequest} {buf : Buffer} {ok : Bool}

theorem parseStep_unfinished (hbuf : buf.Inv) (hfree : Free kCRLF buf.readable)
    {state : HttpRequestParseState}
    (hstate : state = .kExpectRequestLine ∨ state = .kExpectHeaders) :
    parseStep region t ⟨⟨state, req⟩, buf, ok, true⟩ =
      .ok ⟨⟨state, req⟩, buf, ok, false⟩ := by
  unfold parseStep
  rcases hstate with rfl | rfl <;> simp only [findCRLF_eq_none hbuf hfree] <;> rfl

theorem parseStep_requestLine (hbuf : buf.Inv) {line rest : Bytes}
    (hread : buf.readable = line ++ kCRLF ++ rest) (hline : Free kCRLF line)
    {req' : HttpRequest} {known : Bool}
    (hknown : processRequestLine req line = (known, req')) :
    parseStep region t ⟨⟨.kExpectRequestLine, req⟩, buf, ok, true⟩ =
      .ok (if known then
        ⟨⟨.kExpectHeaders, req'.setReceiveTime t⟩,
          buf.retrieve (line ++ kCRLF).length, true, true⟩
      else
        ⟨⟨.kExpectRequestLine, req'⟩, buf, false, false⟩) := by
  have hload := load_line hbuf region (hread.trans (List.append_assoc _ _ _))
  unfold parseStep
  simp only [findCRLF_eq_some hbuf hread hline, Nat.add_sub_cancel_left, hload,
    bind, Except.bind, hknown]
  rw [← retrieveUntil_line]
  split <;> rfl

theorem parseStep_headerLine (hbuf : buf.Inv) {line rest : Bytes}
    (hread : buf.readable = line ++ kCRLF ++ rest) (hline : Free kCRLF line) :
    parseStep region t ⟨⟨.kExpectHeaders, req⟩, buf, ok, true⟩ =
      .ok ⟨if line.idxOf (chr ':') ≠ line.length then
          ⟨.kExpectHeaders, addField req line⟩
        else ⟨.kExpectBody, req⟩,
        buf.retrieve (line ++ kCRLF).length, ok, true⟩ := by
  have hload := load_line hbuf region (hread.trans (List.append_assoc _ _ _))
  unfold parseStep
  simp only [findCRLF_eq_some hbuf hread hline, Nat.add_sub_cancel_left, hload]
  rw [← retrieveUntil_line]
  rfl

theorem readable_after_line (hbuf : buf.Inv)
    {line rest : Bytes} (hread : buf.readable = line ++ kCRLF ++ rest) :
    (buf.retrieve (line ++ kCRLF).length).readable = rest := by
  rw [readable_retrieve hbuf, hread]
  exact List.drop_left' rfl

def retrieveLines (b : Buffer) (lines : List Bytes) : Buffer :=
  lines.foldl (fun b line => b.retrieve (line ++ kCRLF).length) b

theorem retrieveLines_retrieve (b : Buffer) (lines : List Bytes) (n : ℕ) :
    (retrieveLines b lines).retrieve n =
      b.retrieve ((frame kCRLF lines).length + n) := by
  induction lines generalizing b with
  | nil => simp [retrieveLines]
  | cons line lines ih =>
      have htail := ih (b.retrieve (line ++ kCRLF).length)
      rw [retrieve_retrieve] at htail
      rw [frame_cons, List.length_append, Nat.add_assoc]
      exact htail

theorem retrieveLines_of_retrieve (b : Buffer) (m : ℕ) (lines : List Bytes) :
    retrieveLines (b.retrieve m) lines = b.retrieve (m + (frame kCRLF lines).length) := by
  induction lines generalizing m with
  | nil => rfl
  | cons line lines ih =>
      change retrieveLines ((b.retrieve m).retrieve (line ++ kCRLF).length) lines = _
      have hframe : (frame kCRLF (line :: lines)).length =
          (line ++ kCRLF).length + (frame kCRLF lines).length := by
        rw [frame_cons, List.length_append]
      rw [retrieve_retrieve, ih, hframe, Nat.add_assoc]

theorem retrieveLines_spec {b : Buffer} (hb : b.Inv) {lines : List Bytes}
    {tail : Bytes} (hread : b.readable = frame kCRLF lines ++ tail) :
    (retrieveLines b lines).Inv ∧ (retrieveLines b lines).readable = tail ∧
      (retrieveLines b lines).buffer_ = b.buffer_ := by
  induction lines generalizing b with
  | nil => exact ⟨hb, hread, rfl⟩
  | cons line lines ih =>
      have hline : b.readable = line ++ kCRLF ++ (frame kCRLF lines ++ tail) := by
        rw [hread, frame_cons, List.append_assoc]
      have hnext := readable_after_line hb hline
      have hrest := ih (retrieve_inv hb _) hnext
      exact ⟨hrest.1, hrest.2.1, hrest.2.2.trans (retrieve_buffer_ b _)⟩

/-- The line that closes the block is retrieved with the lines before it. -/
theorem retrieveLines_last {fields : List Bytes} {last rest : Bytes}
    (hclosed : ClosedBlock kCRLF IsField buf.readable fields last rest) :
    (retrieveLines buf fields).retrieve (last ++ kCRLF).length =
      buf.retrieve (buf.readable.length - rest.length) := by
  have hconsumed : (frame kCRLF fields).length + (last ++ kCRLF).length =
      buf.readable.length - rest.length := by
    rw [hclosed.text_lines]
    simp only [List.length_append]
    omega
  rw [retrieveLines_retrieve, hconsumed]

theorem parseLoop_fields (hbuf : buf.Inv) {fields : List Bytes} {tail : Bytes}
    (hread : buf.readable = frame kCRLF fields ++ tail)
    (hfree : ∀ line ∈ fields, Free kCRLF line)
    (hfield : ∀ line ∈ fields, IsField line) :
    parseLoop region t (fuel + fields.length)
        ⟨⟨.kExpectHeaders, req⟩, buf, ok, true⟩ =
      parseLoop region t fuel
        ⟨⟨.kExpectHeaders, addFields req fields⟩, retrieveLines buf fields,
          ok, true⟩ := by
  induction fields generalizing req buf with
  | nil => rfl
  | cons line fields ih =>
      have hline : buf.readable =
          line ++ kCRLF ++ (frame kCRLF fields ++ tail) := by
        rw [hread, frame_cons, List.append_assoc]
      have hcolon : line.idxOf (chr ':') ≠ line.length :=
        (List.idxOf_lt_length_of_mem (hfield line (by simp))).ne
      have hstep :
          parseStep region t ⟨⟨.kExpectHeaders, req⟩, buf, ok, true⟩ = _ :=
        parseStep_headerLine hbuf hline (hfree line (by simp))
      rw [if_pos hcolon] at hstep
      rw [List.length_cons, ← Nat.add_assoc, parseLoop_step rfl hstep]
      exact ih (retrieve_inv hbuf _) (readable_after_line hbuf hline)
        (fun line hmem => hfree line (by simp [hmem]))
        (fun line hmem => hfield line (by simp [hmem]))

theorem parseLoop_open (hbuf : buf.Inv) {fields : List Bytes} {tail : Bytes}
    (hopen : OpenBlock kCRLF IsField buf.readable fields tail) :
    parseLoop region t (fuel + 1 + fields.length)
        ⟨⟨.kExpectHeaders, req⟩, buf, ok, true⟩ =
      .ok ⟨⟨.kExpectHeaders, addFields req fields⟩, retrieveLines buf fields,
        ok, false⟩ := by
  have hafter := retrieveLines_spec hbuf hopen.text_eq
  have hfree : Free kCRLF (retrieveLines buf fields).readable := by
    rw [hafter.2.1]
    exact hopen.tail_free
  rw [parseLoop_fields hbuf hopen.text_eq hopen.lines_free hopen.lines_keep,
    parseLoop_step rfl (parseStep_unfinished hafter.1 hfree (.inr rfl)),
    parseLoop_stopped rfl]

theorem parseLoop_closed (hbuf : buf.Inv) {fields : List Bytes}
    {last rest : Bytes}
    (hclosed : ClosedBlock kCRLF IsField buf.readable fields last rest) :
    parseLoop region t (fuel + 1 + fields.length)
        ⟨⟨.kExpectHeaders, req⟩, buf, ok, true⟩ =
      parseLoop region t fuel
        ⟨⟨.kExpectBody, addFields req fields⟩,
          buf.retrieve (buf.readable.length - rest.length), ok, true⟩ := by
  have hafter := retrieveLines_spec hbuf hclosed.text_lines
  have hcolon : last.idxOf (chr ':') = last.length :=
    List.idxOf_of_notMem hclosed.last_refused
  have hstep :
      parseStep region t ⟨⟨.kExpectHeaders, addFields req fields⟩,
        retrieveLines buf fields, ok, true⟩ = _ :=
    parseStep_headerLine hafter.1 hafter.2.1 hclosed.last_free
  rw [if_neg (not_not.mpr hcolon), retrieveLines_last hclosed] at hstep
  rw [parseLoop_fields hbuf hclosed.text_lines hclosed.lines_free hclosed.lines_keep,
    parseLoop_step rfl hstep]

end Loop

def expectBody (region : Region) (req : HttpRequest) (buf : Buffer) :
    Exec (HttpRequest × Buffer) :=
  if req.method_ = .kPost then parseBody region req buf else pure (req, buf)

/-- What is left of `parseRequest` when the header section has ended. -/
def finishRequest (region : Region) (ok : Bool) (req : HttpRequest)
    (buf : Buffer) : Exec Parsed :=
  (fun r => ⟨ok, ⟨.kGotAll, r.1⟩, r.2⟩) <$> expectBody region req buf

theorem parseLoop_body (region : Region) (t : Timestamp) (fuel : ℕ)
    (req : HttpRequest) (buf : Buffer) (ok : Bool) :
    (do
      let s ← parseLoop region t (fuel + 1)
        ⟨⟨.kExpectBody, req⟩, buf, ok, true⟩
      return (⟨s.ok, s.context, s.buf⟩ : Parsed)) =
      finishRequest region ok req buf := by
  rw [parseLoop_succ rfl]
  unfold parseStep finishRequest expectBody
  simp only [bind, Except.bind, pure, Except.pure]
  by_cases hpost : req.method_ = .kPost
  · simp only [hpost, if_true]
    cases parseBody region req buf with
    | error fault => rfl
    | ok parsed =>
        simp only [parseLoop_stopped]
        rfl
  · simp only [hpost, if_false, parseLoop_stopped]
    rfl

theorem length_fields_le {fields : List Bytes} {text tail : Bytes}
    (htext : text = frame kCRLF fields ++ tail) :
    2 * fields.length + tail.length ≤ text.length := by
  have hframe := length_mul_le_length_frame kCRLF fields
  have hcrlf : kCRLF.length = 2 := rfl
  rw [htext, List.length_append]
  rw [hcrlf] at hframe
  omega

theorem length_closed_le {fields : List Bytes} {text last rest : Bytes}
    (hclosed : ClosedBlock kCRLF IsField text fields last rest) :
    2 * fields.length + 2 + rest.length ≤ text.length := by
  have hshort := length_fields_le hclosed.text_lines
  have hcrlf : kCRLF.length = 2 := rfl
  simp only [List.length_append] at hshort
  omega

theorem readable_retrieve_suffix {buf : Buffer} (hbuf : buf.Inv) {rest : Bytes}
    (hrest : rest <:+ buf.readable) :
    (buf.retrieve (buf.readable.length - rest.length)).readable = rest := by
  rw [readable_retrieve hbuf]
  exact (List.suffix_iff_eq_drop.mp hrest).symm

/-- A request line without the end of the headers is retrieved with the headers
that are there. -/
theorem parseRequest_of_headAccepted (region : Region) {t : Timestamp}
    {context after : HttpContext} {buf : Buffer} {unread : Bytes} (hbuf : buf.Inv)
    (hwaits : HeadWaits t context buf.readable true after unread) :
    parseRequest region context buf t =
      .ok ⟨true, after, buf.retrieve (buf.readable.length - unread.length)⟩ := by
  have hlength := length_readable hbuf
  unfold parseRequest
  generalize htext : buf.readable = text at hwaits
  cases hwaits with
  | @accepted req req' line more tail fields hline haccept hopen =>
      have hmore := readable_after_line hbuf htext
      have hnext := retrieve_inv hbuf (line ++ kCRLF).length
      have hconsumed : (line ++ kCRLF).length + (frame kCRLF fields).length =
          (line ++ kCRLF ++ more).length - unread.length := by
        rw [hopen.text_eq]
        simp only [List.length_append]
        omega
      have hshort := length_fields_le hopen.text_eq
      have hfuel : ∃ fuel, buf.readableBytes = fuel + 1 + fields.length := by
        rw [htext, List.length_append, List.length_append] at hlength
        have hcrlf : kCRLF.length = 2 := rfl
        exact ⟨buf.readableBytes - fields.length - 1, by omega⟩
      rcases hfuel with ⟨fuel, hfuel⟩
      rw [← hmore] at hopen
      rw [parseLoop_step rfl (parseStep_requestLine hbuf htext hline haccept),
        hfuel, if_pos rfl, parseLoop_open hnext hopen, retrieveLines_of_retrieve, hconsumed]
      rfl

theorem parseRequest_of_headWaits (region : Region) {t : Timestamp}
    {context after : HttpContext} {buf : Buffer} {ok : Bool} {unread : Bytes}
    (hbuf : buf.Inv)
    (hwaits : HeadWaits t context buf.readable ok after unread) :
    ∃ buf', parseRequest region context buf t = .ok ⟨ok, after, buf'⟩ ∧
      buf'.Inv ∧ buf'.readable = unread ∧ buf'.buffer_ = buf.buffer_ := by
  have hlength := length_readable hbuf
  unfold parseRequest
  generalize htext : buf.readable = text at hwaits
  cases hwaits with
  | line hfree =>
      rw [← htext] at hfree
      refine ⟨buf, ?_, hbuf, htext, rfl⟩
      rw [parseLoop_step rfl (parseStep_unfinished hbuf hfree (.inl rfl)),
        parseLoop_stopped rfl]
      rfl
  | refused hline hrefuse =>
      refine ⟨buf, ?_, hbuf, htext, rfl⟩
      rw [parseLoop_step rfl (parseStep_requestLine hbuf htext hline hrefuse)]
      simp only [Bool.false_eq_true, if_false]
      rw [parseLoop_stopped rfl]
      rfl
  | @accepted req req' line more tail fields hline haccept hopen =>
      have hsuffix : unread <:+ buf.readable := by
        rw [htext, hopen.text_eq, ← List.append_assoc]
        exact List.suffix_append _ _
      refine ⟨_, ?_, retrieve_inv hbuf _, readable_retrieve_suffix hbuf hsuffix,
        retrieve_buffer_ _ _⟩
      exact parseRequest_of_headAccepted region hbuf (htext ▸ .accepted hline haccept hopen)
  | @headers req _ tail fields hopen =>
      rw [← htext] at hopen
      have hafter := retrieveLines_spec hbuf hopen.text_eq
      have hshort := length_fields_le hopen.text_eq
      have hfuel :
          ∃ fuel, buf.readableBytes + 1 = fuel + 1 + fields.length :=
        ⟨buf.readableBytes - fields.length, by omega⟩
      rcases hfuel with ⟨fuel, hfuel⟩
      refine ⟨_, ?_, hafter.1, hafter.2.1, hafter.2.2⟩
      rw [hfuel, parseLoop_open hbuf hopen]
      rfl

theorem parseRequest_of_headEnds (region : Region) {t : Timestamp}
    {context : HttpContext} {buf : Buffer} {ok : Bool} {request : HttpRequest}
    {rest : Bytes} (hbuf : buf.Inv)
    (hends : HeadEnds t context buf.readable ok request rest) :
    parseRequest region context buf t =
      finishRequest region ok request
        (buf.retrieve (buf.readable.length - rest.length)) := by
  have hlength := length_readable hbuf
  unfold parseRequest
  generalize htext : buf.readable = text at hends
  cases hends with
  | @accepted req req' line more last _ fields hline haccept hclosed =>
      have hmore := readable_after_line hbuf htext
      have hnext := retrieve_inv hbuf (line ++ kCRLF).length
      have hshort := length_closed_le hclosed
      have hcrlf : kCRLF.length = 2 := rfl
      rw [htext, List.length_append, List.length_append] at hlength
      have hfuel : ∃ fuel, buf.readableBytes = fuel + 1 + 1 + fields.length :=
        ⟨buf.readableBytes - fields.length - 2, by omega⟩
      rcases hfuel with ⟨fuel, hfuel⟩
      have hconsumed :
          (line ++ kCRLF).length + (more.length - rest.length) =
            (line ++ kCRLF ++ more).length - rest.length := by
        simp only [List.length_append]
        omega
      rw [← hmore] at hclosed
      rw [parseLoop_step rfl (parseStep_requestLine hbuf htext hline haccept),
        hfuel, if_pos rfl, parseLoop_closed hnext hclosed, parseLoop_body,
        hmore, retrieve_retrieve, hconsumed]
  | @headers req _ last _ fields hclosed =>
      rw [← htext] at hclosed
      have hshort := length_closed_le hclosed
      have hfuel :
          ∃ fuel, buf.readableBytes + 1 = fuel + 1 + 1 + fields.length :=
        ⟨buf.readableBytes - fields.length - 1, by omega⟩
      rcases hfuel with ⟨fuel, hfuel⟩
      rw [hfuel, parseLoop_closed hbuf hclosed, parseLoop_body, htext]

end MyFileServer
