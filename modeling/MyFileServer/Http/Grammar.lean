import MyFileServer.Http.RoundTrip

/-!
# The language of the parser

`Grammar` is the language that a request without a body is written in.  The
parser ends the header section at the first line without a colon, and
`EndsAt` names that line: the language of the parser is the one of the grammar
and the texts that end at a line which is not empty.
-/

namespace MyFileServer

open Execution Delimiter Buffer

/-- A valid request line, lines with a colon, and the empty line. -/
def Grammar (s : Bytes) : Prop :=
  ∃ head : RequestHead, head.text <+: s

/-- A valid request line and lines with a colon, and then the complete line
`last`, which has none. -/
def EndsAt (s last : Bytes) : Prop :=
  ∃ (line : RequestLine) (more rest : Bytes) (fields : List Bytes),
    s = line.text ++ kCRLF ++ more ∧ Free kCRLF line.text ∧
      ClosedBlock kCRLF IsField more fields last rest

def Accepts (buf : Buffer) (t : Timestamp) : Prop :=
  ∃ parsed, parseRequest .storage {} buf t = .ok parsed ∧
    parsed.context.state_ = .kGotAll

theorem grammar_iff_endsAt_nil (s : Bytes) : Grammar s ↔ EndsAt s [] := by
  constructor
  · intro h
    obtain ⟨head, rest, htext⟩ := h
    refine ⟨head.line, _, rest, head.fields, ?_, head.line_free,
      head.closed rest⟩
    rw [← htext]
    simp [RequestHead.text, List.append_assoc]
  · intro h
    obtain ⟨line, more, rest, fields, htext, hline, hclosed⟩ := h
    let head : RequestHead :=
      ⟨line, fields, hline, hclosed.lines_free, hclosed.lines_keep⟩
    refine ⟨head, rest, ?_⟩
    rw [htext, hclosed.text_eq]
    simp [head, RequestHead.text, List.append_assoc]

theorem EndsAt.unique {s last₁ last₂ : Bytes}
    (h₁ : EndsAt s last₁) (h₂ : EndsAt s last₂) : last₁ = last₂ := by
  obtain ⟨line₁, more₁, _, _, htext₁, hline₁, hclosed₁⟩ := h₁
  obtain ⟨line₂, more₂, _, _, htext₂, hline₂, hclosed₂⟩ := h₂
  have hcut := line_cancel kCRLF_unbordered hline₁ hline₂
    (htext₁.symm.trans htext₂)
  rw [← hcut.2] at hclosed₂
  exact (hclosed₁.unique kCRLF_unbordered hclosed₂).2.1

theorem exists_headEnds_iff (t : Timestamp) (s : Bytes) :
    (∃ ok request rest, HeadEnds t {} s ok request rest) ↔
      ∃ last, EndsAt s last := by
  constructor
  · intro h
    obtain ⟨ok, request, rest, hends⟩ := h
    obtain ⟨text, more, _, fields, last, hs, hline, haccept, hclosed, _⟩ :=
      HeadEnds.requestLine hends
    obtain ⟨line, rfl, _⟩ := exists_requestLine_of_accepted haccept
    exact ⟨last, line, more, rest, fields, hs, hline, hclosed⟩
  · intro h
    obtain ⟨last, line, more, rest, fields, rfl, hline, hclosed⟩ := h
    exact ⟨_, _, _, headEnds_of_requestLine t hline
      (processRequestLine_text line {}) hclosed⟩

theorem method_ne_kPost {t : Timestamp} {s rest : Bytes} {ok : Bool}
    {request : HttpRequest} (hs : ¬ ascii "POST " <+: s)
    (hends : HeadEnds t {} s ok request rest) : request.method_ ≠ .kPost := by
  obtain ⟨text, more, _, fields, _, rfl, _, haccept, _, _, rfl⟩ :=
    HeadEnds.requestLine hends
  obtain ⟨line, rfl, rfl⟩ := exists_requestLine_of_accepted haccept
  have hmethod : ((addFields (line.read {}) fields).setReceiveTime t).method_ =
      line.method := by
    rw [addFields_eq]
    exact line.read_method_ {}
  rw [hmethod]
  intro hpost
  apply hs
  unfold RequestLine.text
  rw [hpost]
  exact ⟨_, rfl⟩

theorem accepts_iff {s : Bytes} (hs : ¬ ascii "POST " <+: s) {buf : Buffer}
    (hbuf : buf.Inv) (hread : buf.readable = s) (t : Timestamp) :
    Accepts buf t ↔ ∃ last, EndsAt s last := by
  rw [← exists_headEnds_iff t]
  constructor
  · intro h
    obtain ⟨parsed, hcall, hstate⟩ := h
    rcases headWaits_or_headEnds t (.inl rfl : ({} : HttpContext).AtHead) s with
      ⟨ok, after, unread, hwaits⟩ | hends
    · rw [← hread] at hwaits
      obtain ⟨_, hwaiting, _⟩ := parseRequest_of_headWaits .storage hbuf hwaits
      rw [hwaiting, Except.ok.injEq] at hcall
      subst hcall
      rcases hwaits.atHead with hline | hheaders
      · exact absurd (hline.symm.trans hstate) (by decide)
      · exact absurd (hheaders.symm.trans hstate) (by decide)
    · exact hends
  · intro h
    obtain ⟨ok, request, rest, hends⟩ := h
    have hmethod := method_ne_kPost hs hends
    rw [← hread] at hends
    have hcall := parseRequest_of_headEnds .storage hbuf hends
    unfold finishRequest expectBody at hcall
    rw [if_neg hmethod] at hcall
    exact ⟨_, hcall, rfl⟩

/-- The parser agrees with the grammar on a text exactly when the header
section of the text does not end at a line that is not empty. -/
theorem accepts_grammar_iff {s : Bytes} (hs : ¬ ascii "POST " <+: s)
    {buf : Buffer} (hbuf : buf.Inv) (hread : buf.readable = s) (t : Timestamp) :
    (Accepts buf t ↔ Grammar s) ↔ ¬ ∃ last, last ≠ [] ∧ EndsAt s last := by
  rw [accepts_iff hs hbuf hread t, grammar_iff_endsAt_nil]
  constructor
  · intro hagree hbad
    obtain ⟨last, hne, hlast⟩ := hbad
    have hempty := hagree.mp ⟨last, hlast⟩
    exact hne (hlast.unique hempty)
  · intro hgood
    constructor
    · intro h
      obtain ⟨last, hlast⟩ := h
      by_cases hne : last = []
      · rw [← hne]
        exact hlast
      · exact absurd ⟨last, hne, hlast⟩ hgood
    · intro h
      exact ⟨[], h⟩

theorem accepts_grammar_iff_get :
    Accepts (ofReadable (ascii "GET / HTTP/1.1\r\n\r\n")) {} ↔
      Grammar (ascii "GET / HTTP/1.1\r\n\r\n") := by
  refine (accepts_grammar_iff (by decide)
    (ofReadable_inv (lt_maxSize (by decide)).le) (ofReadable_readable _) {}).mpr ?_
  intro h
  obtain ⟨last, hne, hlast⟩ := h
  let line := RequestLine.root .kGet (by decide)
  have hempty : EndsAt (ascii "GET / HTTP/1.1\r\n\r\n") [] :=
    ⟨line, kCRLF, [], [], rfl, free_of_notMem (a := 13) (by decide) (by decide),
      ⟨rfl, by simp, by simp, free_nil kCRLF_ne_nil, by simp [IsField]⟩⟩
  exact hne (hlast.unique hempty)

/-- The line `foo` ends the header section, and the text after it is left as
the next request. -/
theorem accepts_colonless_line :
    let s := ascii "GET / HTTP/1.1\r\nfoo\r\nGET /secret HTTP/1.1\r\n\r\n"
    ¬ ascii "POST " <+: s ∧ (ofReadable s).Inv ∧ (ofReadable s).readable = s ∧
      Accepts (ofReadable s) {} ∧ ¬ Grammar s := by
  intro s
  have hs : ¬ ascii "POST " <+: s := by decide
  have hbuf : (ofReadable s).Inv := ofReadable_inv (lt_maxSize (by decide)).le
  let line := RequestLine.root .kGet (by decide)
  have hfoo : EndsAt s (ascii "foo") :=
    ⟨line, ascii "foo\r\nGET /secret HTTP/1.1\r\n\r\n",
      ascii "GET /secret HTTP/1.1\r\n\r\n", [], by decide,
      free_of_notMem (a := 13) (by decide) (by decide),
      ⟨by decide, by simp, by simp,
        free_of_notMem (a := 13) (by decide) (by decide), by decide⟩⟩
  refine ⟨hs, hbuf, ofReadable_readable s,
    (accepts_iff hs hbuf (ofReadable_readable s) {}).mpr ⟨_, hfoo⟩, ?_⟩
  intro hgrammar
  have hempty := (grammar_iff_endsAt_nil s).mp hgrammar
  exact absurd (hfoo.unique hempty) (by decide)

end MyFileServer
