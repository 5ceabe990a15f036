import MyFileServer.Http.ParseHead

/-!
# The body of a POST request

`SafeBody` is the condition on the bytes after the header section under which
the body branch stays inside the readable region.  Against the whole vector
the branch returns more often, and then only the facts of `parseBody_spec`
are left.
-/

namespace MyFileServer

open Execution Delimiter Window

namespace Buffer

theorem load_eq_ok {region : Region} {b : Buffer} {i n : ℕ} {text : Bytes} :
    b.load region i n = .ok text ↔
      b.readerIndex_ ≤ i ∧ i + n ≤ b.limit region ∧
        text = window b.buffer_ i (i + n) := by
  unfold load
  rw [ite_eq_ok, and_assoc]

theorem limit_le {b : Buffer} (hb : b.Inv) (region : Region) :
    b.limit region ≤ b.buffer_.length := by
  cases region with
  | readable => exact hb.writer_le
  | storage => exact le_rfl

end Buffer

open Buffer

namespace HttpRequest

def contentLength (req : HttpRequest) : ℤ :=
  atoi (req.getHeader (ascii "Content-Length"))

theorem headerAt_fst (req : HttpRequest) (key : Bytes) :
    (req.headerAt key).1 = req.getHeader key := by
  unfold headerAt getHeader
  split <;> simp [*]

@[simp] theorem headerAt_method_ (req : HttpRequest) (key : Bytes) :
    (req.headerAt key).2.method_ = req.method_ := by
  unfold headerAt
  split <;> rfl

@[simp] theorem headerAt_path_ (req : HttpRequest) (key : Bytes) :
    (req.headerAt key).2.path_ = req.path_ := by
  unfold headerAt
  split <;> rfl

theorem getHeader_headerAt (req : HttpRequest) (key field : Bytes) :
    (req.headerAt key).2.getHeader field = req.getHeader field := by
  unfold headerAt getHeader
  split
  next => rfl
  next habsent =>
    by_cases hfield : field = key
    · subst hfield
      rw [Finmap.lookup_insert, habsent]
      rfl
    · rw [Finmap.lookup_insert_of_ne _ hfield]

def withContent (req : HttpRequest) (content : Bytes) : HttpRequest :=
  { (req.headerAt (ascii "Content-Length")).2 with m_string := content }

@[simp] theorem withContent_method_ (req : HttpRequest) (content : Bytes) :
    (req.withContent content).method_ = req.method_ :=
  headerAt_method_ req _

@[simp] theorem withContent_path_ (req : HttpRequest) (content : Bytes) :
    (req.withContent content).path_ = req.path_ :=
  headerAt_path_ req _

@[simp] theorem withContent_contentLength (req : HttpRequest)
    (content : Bytes) :
    (req.withContent content).contentLength = req.contentLength :=
  congrArg atoi (getHeader_headerAt req _ _)

/-- What `addcontent` needs: three bytes for the trace output, and a length
that is not negative and stays below the limit. -/
theorem addcontent_eq_ok {region : Region} {req req' : HttpRequest}
    {buf : Buffer} {start : ℕ} :
    req.addcontent region buf start = .ok req' ↔
      buf.readerIndex_ ≤ start ∧ start + 3 ≤ buf.limit region ∧
      0 ≤ req.contentLength ∧
      start + req.contentLength.toNat ≤ buf.limit region ∧
      req' = req.withContent
        (window buf.buffer_ start (start + req.contentLength.toNat)) := by
  have hlen : atoi (req.headerAt (ascii "Content-Length")).1 =
      req.contentLength := by
    rw [headerAt_fst]
    rfl
  unfold addcontent
  simp only [hlen, bind_eq_ok, load_eq_ok]
  constructor
  · intro h
    rcases h with
      ⟨_, ⟨hstart, _, _⟩, _, _, _, ⟨_, hthree, _⟩, hassign⟩
    split at hassign
    next => cases hassign
    next hnonneg =>
      rcases bind_eq_ok.mp hassign with ⟨content, hload, hresult⟩
      rcases load_eq_ok.mp hload with ⟨_, hfit, rfl⟩
      exact ⟨hstart, by omega, not_lt.mp hnonneg, hfit,
        (Except.ok.inj hresult).symm⟩
  · intro h
    rcases h with ⟨hstart, hthree, hnonneg, hfit, rfl⟩
    refine ⟨_, ⟨hstart, by omega, rfl⟩, _, ⟨by omega, by omega, rfl⟩,
      _, ⟨by omega, by omega, rfl⟩, ?_⟩
    rw [if_neg (not_lt.mpr hnonneg), load_eq_ok.mpr ⟨hstart, hfit, rfl⟩]
    rfl

end HttpRequest

/-! ## The headers of a part -/

section Parts

variable {region : Region} {req : HttpRequest} {buf : Buffer} {fuel : ℕ}

theorem partHeaders_line (hbuf : buf.Inv) {line rest : Bytes}
    (hread : buf.readable = line ++ kCRLF ++ rest) (hline : Free kCRLF line) :
    partHeaders region (fuel + 1) req buf =
      if line.idxOf (chr ':') ≠ line.length then
        partHeaders region fuel (addField req line)
          (buf.retrieve (line ++ kCRLF).length)
      else
        .ok (req, buf.retrieve (line ++ kCRLF).length) := by
  have hload := load_line hbuf region (hread.trans (List.append_assoc _ _ _))
  have hfirst : ∃ c tail, buf.readable = [c] ++ tail := by
    rw [hread]
    cases line with
    | nil => exact ⟨_, _, rfl⟩
    | cons c line => exact ⟨c, _, rfl⟩
  rcases hfirst with ⟨c, tail, hfirst⟩
  have hpeek := load_line hbuf region hfirst
  rw [List.length_singleton] at hpeek
  conv_lhs => unfold partHeaders
  simp only [findCRLF_eq_some hbuf hread hline, Nat.add_sub_cancel_left, hload,
    hpeek, bind, Except.bind]
  rw [← retrieveUntil_line]
  rfl

theorem partHeaders_fields (hbuf : buf.Inv) {fields : List Bytes} {tail : Bytes}
    (hread : buf.readable = frame kCRLF fields ++ tail)
    (hfree : ∀ line ∈ fields, Free kCRLF line)
    (hfield : ∀ line ∈ fields, IsField line) :
    partHeaders region (fuel + fields.length) req buf =
      partHeaders region fuel (addFields req fields)
        (retrieveLines buf fields) := by
  induction fields generalizing req buf with
  | nil => rfl
  | cons line fields ih =>
      have hline : buf.readable =
          line ++ kCRLF ++ (frame kCRLF fields ++ tail) := by
        rw [hread, frame_cons, List.append_assoc]
      have hcolon : line.idxOf (chr ':') ≠ line.length :=
        (List.idxOf_lt_length_of_mem (hfield line (by simp))).ne
      rw [List.length_cons, ← Nat.add_assoc,
        partHeaders_line hbuf hline (hfree line (by simp)), if_pos hcolon]
      exact ih (retrieve_inv hbuf _) (readable_after_line hbuf hline)
        (fun line hmem => hfree line (by simp [hmem]))
        (fun line hmem => hfield line (by simp [hmem]))

theorem partHeaders_open (hbuf : buf.Inv) {fields : List Bytes} {tail : Bytes}
    (hopen : OpenBlock kCRLF IsField buf.readable fields tail) :
    partHeaders region (fuel + 1 + fields.length) req buf =
      .error .nullPointer := by
  have hafter := retrieveLines_spec hbuf hopen.text_eq
  have hfree : Free kCRLF (retrieveLines buf fields).readable := by
    rw [hafter.2.1]
    exact hopen.tail_free
  rw [partHeaders_fields hbuf hopen.text_eq hopen.lines_free hopen.lines_keep]
  unfold partHeaders
  rw [findCRLF_eq_none hafter.1 hfree]
  rfl

theorem partHeaders_closed (hbuf : buf.Inv) {fields : List Bytes}
    {last rest : Bytes}
    (hclosed : ClosedBlock kCRLF IsField buf.readable fields last rest) :
    partHeaders region (fuel + 1 + fields.length) req buf =
      .ok (addFields req fields,
        buf.retrieve (buf.readable.length - rest.length)) := by
  have hafter := retrieveLines_spec hbuf hclosed.text_lines
  have hcolon : last.idxOf (chr ':') = last.length :=
    List.idxOf_of_notMem hclosed.last_refused
  rw [partHeaders_fields hbuf hclosed.text_lines hclosed.lines_free hclosed.lines_keep,
    partHeaders_line hafter.1 hafter.2.1 hclosed.last_free,
    if_neg (not_not.mpr hcolon), retrieveLines_last hclosed]

end Parts

/-! ## The branch -/

section Body

variable {region : Region} {req : HttpRequest} {buf : Buffer}

theorem parseBody_plain {c : UInt8}
    (hfirst : buf.load region buf.peek 1 = .ok [c]) (hc : c ≠ chr '-') :
    parseBody region req buf =
      (fun r => (r, buf)) <$> req.addcontent region buf buf.peek := by
  unfold parseBody
  simp only [hfirst, bind, Except.bind]
  rw [if_neg (by simpa using hc)]
  rfl

theorem parseBody_unfinished (hbuf : buf.Inv)
    (hfirst : buf.load region buf.peek 1 = .ok [chr '-'])
    (hfree : Free kCRLF buf.readable) :
    parseBody region req buf = .error .nullPointer := by
  unfold parseBody
  simp only [hfirst, findCRLF_eq_none hbuf hfree, bind, Except.bind]
  rfl

theorem parseBody_boundary (hbuf : buf.Inv)
    (hfirst : buf.load region buf.peek 1 = .ok [chr '-'])
    {boundary more : Bytes}
    (hread : buf.readable = boundary ++ kCRLF ++ more)
    (hboundary : Free kCRLF boundary) :
    parseBody region req buf = (do
      let buf := buf.retrieve (boundary ++ kCRLF).length
      let _ ← buf.load region buf.peek 1
      let (req, buf) ← partHeaders region (buf.readableBytes + 1) req buf
      let _ ← buf.load region buf.peek 1
      let req ← req.addcontent region buf buf.peek
      return (req, buf)) := by
  rw [← retrieveUntil_line]
  unfold parseBody
  simp only [hfirst, findCRLF_eq_some hbuf hread hboundary, bind, Except.bind]
  rfl

theorem parseBody_open (hbuf : buf.Inv)
    (hfirst : buf.load region buf.peek 1 = .ok [chr '-'])
    {boundary more tail : Bytes} {fields : List Bytes}
    (hread : buf.readable = boundary ++ kCRLF ++ more)
    (hboundary : Free kCRLF boundary)
    (hopen : OpenBlock kCRLF IsField more fields tail) :
    ¬ Returns (parseBody region req buf) := by
  have hnext := retrieve_inv hbuf (boundary ++ kCRLF).length
  have hmore := readable_after_line hbuf hread
  have hlength := length_readable hnext
  rw [← hmore] at hopen
  have hshort := length_fields_le hopen.text_eq
  have hfuel : ∃ fuel,
      (buf.retrieve (boundary ++ kCRLF).length).readableBytes + 1 =
        fuel + 1 + fields.length :=
    ⟨(buf.retrieve (boundary ++ kCRLF).length).readableBytes - fields.length,
      by omega⟩
  rcases hfuel with ⟨fuel, hfuel⟩
  rw [parseBody_boundary hbuf hfirst hread hboundary]
  intro hreturns
  rcases returns_bind.mp hreturns with ⟨_, _, hrest⟩
  rw [hfuel, partHeaders_open hnext hopen] at hrest
  exact not_returns_error _ hrest

theorem parseBody_closed (hbuf : buf.Inv)
    (hfirst : buf.load region buf.peek 1 = .ok [chr '-'])
    {boundary more last content : Bytes} {fields : List Bytes}
    (hread : buf.readable = boundary ++ kCRLF ++ more)
    (hboundary : Free kCRLF boundary)
    (hclosed : ClosedBlock kCRLF IsField more fields last content) :
    ∃ buf', buf'.Inv ∧ buf'.readable = content ∧ buf'.buffer_ = buf.buffer_ ∧
      ∀ req, parseBody region req buf = (do
        let _ ← buf'.load region buf'.peek 1
        let req ← (addFields req fields).addcontent region buf' buf'.peek
        return (req, buf')) := by
  have hnext := retrieve_inv hbuf (boundary ++ kCRLF).length
  have hmore := readable_after_line hbuf hread
  have hbytes := retrieve_buffer_ buf (boundary ++ kCRLF).length
  have hcall : ∀ req, parseBody region req buf = _ :=
    fun req => parseBody_boundary hbuf hfirst hread hboundary
  generalize buf.retrieve (boundary ++ kCRLF).length = part at *
  rw [← hmore] at hclosed
  have hlength := length_readable hnext
  have hshort := length_closed_le hclosed
  have hfuel :
      ∃ fuel, part.readableBytes + 1 = fuel + 1 + fields.length :=
    ⟨part.readableBytes - fields.length, by omega⟩
  rcases hfuel with ⟨fuel, hfuel⟩
  have hlimit : part.peek + 1 ≤ part.limit region := by
    have hwriter := hnext.writer_le
    unfold readableBytes at hlength
    unfold peek
    cases region <;> simp only [limit] <;> omega
  have hpeek : part.load region part.peek 1 = .ok _ :=
    load_eq_ok.mpr ⟨le_rfl, hlimit, rfl⟩
  refine ⟨part.retrieve (part.readable.length - content.length),
    retrieve_inv hnext _, readable_retrieve_suffix hnext hclosed.suffix,
    (retrieve_buffer_ _ _).trans hbytes, ?_⟩
  intro req
  rw [hcall]
  simp only [hpeek, hfuel, partHeaders_closed hnext hclosed, bind, Except.bind]

end Body

def FitsContent (req : HttpRequest) (content : Bytes) : Prop :=
  3 ≤ content.length ∧ 0 ≤ req.contentLength ∧
    req.contentLength ≤ content.length

/-- The bytes after the header section for which the body branch stays inside
them. -/
inductive SafeBody (req : HttpRequest) : Bytes → Prop
  | plain {body : Bytes} :
      body.head? ≠ some (chr '-') → FitsContent req body → SafeBody req body
  | multipart {boundary more last content : Bytes} {fields : List Bytes} :
      boundary.head? = some (chr '-') → Free kCRLF boundary →
      ClosedBlock kCRLF IsField more fields last content →
      FitsContent (addFields req fields) content →
      SafeBody req (boundary ++ kCRLF ++ more)

theorem safeBody_plain_iff {req : HttpRequest} {body : Bytes}
    (hplain : body.head? ≠ some (chr '-')) :
    SafeBody req body ↔ FitsContent req body := by
  constructor
  · intro hsafe
    cases hsafe with
    | plain _ hfits => exact hfits
    | @multipart boundary more _ _ _ hdash =>
        cases boundary with
        | nil => cases hdash
        | cons a boundary => exact absurd hdash hplain
  · exact .plain hplain

theorem safeBody_multipart_iff {req : HttpRequest} {boundary more : Bytes}
    (hdash : boundary.head? = some (chr '-')) (hboundary : Free kCRLF boundary) :
    SafeBody req (boundary ++ kCRLF ++ more) ↔
      ∃ fields last content, ClosedBlock kCRLF IsField more fields last content ∧
        FitsContent (addFields req fields) content := by
  constructor
  · intro hsafe
    generalize htext : boundary ++ kCRLF ++ more = text at hsafe
    cases hsafe with
    | plain hplain =>
        subst htext
        cases boundary with
        | nil => cases hdash
        | cons a boundary => exact absurd hdash hplain
    | multipart _ hboundary' hclosed hfits =>
        have hcut := line_cancel kCRLF_unbordered hboundary hboundary' htext
        rw [← hcut.2] at hclosed
        exact ⟨_, _, _, hclosed, hfits⟩
  · intro h
    rcases h with ⟨fields, last, content, hclosed, hfits⟩
    exact .multipart hdash hboundary hclosed hfits

theorem not_safeBody_of_free {req : HttpRequest} {body : Bytes}
    (hdash : body.head? = some (chr '-')) (hfree : Free kCRLF body) :
    ¬ SafeBody req body := by
  intro hsafe
  cases hsafe with
  | plain hplain => exact hplain hdash
  | multipart => exact not_free_append_delimiter _ _ _ hfree

theorem addcontent_returns_iff {req : HttpRequest} {buf : Buffer}
    (hbuf : buf.Inv) :
    Returns (req.addcontent .readable buf buf.peek) ↔
      FitsContent req buf.readable := by
  have hlength := length_readable hbuf
  have hreader := hbuf.reader_le
  unfold readableBytes at hlength
  unfold Returns FitsContent
  simp only [HttpRequest.addcontent_eq_ok, peek, limit, le_refl, true_and]
  constructor
  · intro h
    rcases h with ⟨_, hthree, hnonneg, hfit, _⟩
    exact ⟨by omega, hnonneg, by omega⟩
  · intro h
    exact ⟨_, by omega, h.2.1, by omega, rfl⟩

theorem FitsContent.load {req : HttpRequest} {buf : Buffer} (hbuf : buf.Inv)
    (hfits : FitsContent req buf.readable) :
    Returns (buf.load .readable buf.peek 1) := by
  have hlength := length_readable hbuf
  have hthree := hfits.1
  unfold readableBytes at hlength
  exact ⟨_, load_eq_ok.mpr
    ⟨le_rfl, by unfold peek; simp only [limit]; omega, rfl⟩⟩

theorem load_first {buf : Buffer} (hbuf : buf.Inv) (region : Region)
    {c : UInt8} (hfirst : buf.readable.head? = some c) :
    buf.load region buf.peek 1 = .ok [c] := by
  rcases List.head?_eq_some_iff.mp hfirst with ⟨tail, hread⟩
  have hload : buf.load region buf.peek [c].length = .ok [c] :=
    load_line hbuf region hread
  exact hload

theorem multipart_returns_iff {req : HttpRequest} {buf : Buffer}
    (hbuf : buf.Inv) (hfirst : buf.readable.head? = some (chr '-'))
    {boundary more : Bytes} (hread : buf.readable = boundary ++ kCRLF ++ more)
    (hboundary : Free kCRLF boundary) :
    Returns (parseBody .readable req buf) ↔
      ∃ fields last content, ClosedBlock kCRLF IsField more fields last content ∧
        FitsContent (addFields req fields) content := by
  have hload := load_first hbuf .readable hfirst
  rcases fields_open_or_closed more with
    ⟨fields, tail, hopen⟩ | ⟨fields, last, content, hclosed⟩
  · constructor
    · intro hreturns
      exact absurd hreturns (parseBody_open hbuf hload hread hboundary hopen)
    · intro h
      rcases h with ⟨_, _, _, hclosed, _⟩
      exact (hopen.not_closed kCRLF_unbordered hclosed).elim
  · rcases parseBody_closed hbuf hload hread hboundary hclosed with
      ⟨buf', hbuf', hcontent, _, hcall⟩
    rw [hcall req]
    constructor
    · intro hreturns
      rcases returns_bind.mp hreturns with ⟨_, _, hrest⟩
      rcases returns_bind.mp hrest with ⟨request, hrequest, _⟩
      have hfits := (addcontent_returns_iff hbuf').mp ⟨request, hrequest⟩
      rw [hcontent] at hfits
      exact ⟨_, _, _, hclosed, hfits⟩
    · intro h
      rcases h with ⟨fields', last', content', hclosed', hfits⟩
      have hunique := hclosed.unique kCRLF_unbordered hclosed'
      rw [← hunique.1, ← hunique.2.2, ← hcontent] at hfits
      rcases hfits.load hbuf' with ⟨first, hpeek⟩
      rcases (addcontent_returns_iff hbuf').mpr hfits with ⟨request, hrequest⟩
      exact returns_bind.mpr ⟨first, hpeek,
        returns_bind.mpr ⟨request, hrequest, returns_pure _⟩⟩

/-- The body branch stays inside the readable bytes exactly when they are a
safe body. -/
theorem parseBody_returns_iff {req : HttpRequest} {buf : Buffer}
    (hbuf : buf.Inv) :
    Returns (parseBody .readable req buf) ↔ SafeBody req buf.readable := by
  by_cases hdash : buf.readable.head? = some (chr '-')
  · rcases free_or_line kCRLF_ne_nil buf.readable with
      hfree | ⟨boundary, more, hread, hboundary⟩
    · rw [parseBody_unfinished hbuf (load_first hbuf _ hdash) hfree]
      exact iff_of_false (not_returns_error _) (not_safeBody_of_free hdash hfree)
    · have hfirst : boundary.head? = some (chr '-') := by
        rw [hread] at hdash
        cases boundary with
        | nil => exact absurd (Option.some.inj hdash) (by decide)
        | cons a boundary => exact hdash
      rw [multipart_returns_iff hbuf hdash hread hboundary, hread,
        safeBody_multipart_iff hfirst hboundary]
  · rw [safeBody_plain_iff hdash, ← addcontent_returns_iff hbuf]
    cases hfirst : buf.readable.head? with
    | none =>
        have hlength := length_readable hbuf
        rw [List.head?_eq_none_iff.mp hfirst, List.length_nil] at hlength
        unfold readableBytes at hlength
        constructor
        · intro hreturns
          rcases returns_bind.mp hreturns with ⟨first, hload, _⟩
          have hfit := (load_eq_ok.mp hload).2.1
          unfold peek at hfit
          simp only [limit] at hfit
          omega
        · intro hreturns
          have hthree := ((addcontent_returns_iff hbuf).mp hreturns).1
          rw [List.head?_eq_none_iff.mp hfirst] at hthree
          exact absurd hthree (by decide)
    | some c =>
        have hc : c ≠ chr '-' := by
          intro hc
          exact hdash (hfirst.trans (congrArg some hc))
        rw [parseBody_plain (load_first hbuf _ hfirst) hc, returns_map]

theorem partHeaders_spec {region : Region} {fuel : ℕ}
    {req req' : HttpRequest} {buf buf' : Buffer} (hbuf : buf.Inv)
    (hcall : partHeaders region fuel req buf = .ok (req', buf')) :
    buf'.Inv ∧ buf'.buffer_ = buf.buffer_ ∧ req'.method_ = req.method_ := by
  induction fuel generalizing req buf with
  | zero => cases hcall
  | succ fuel ih =>
      unfold partHeaders at hcall
      cases hcrlf : buf.findCRLF with
      | none =>
          simp only [hcrlf] at hcall
          cases hcall
      | some crlf =>
          have hnext := retrieve_inv hbuf (crlf + 2 - buf.peek)
          simp only [hcrlf] at hcall
          rcases bind_eq_ok.mp hcall with ⟨line, _, hline⟩
          split at hline
          · rcases bind_eq_ok.mp hline with ⟨_, _, hrest⟩
            have hspec := ih hnext hrest
            exact ⟨hspec.1, hspec.2.1.trans (retrieve_buffer_ _ _), hspec.2.2⟩
          · cases hline
            exact ⟨hnext, retrieve_buffer_ _ _, rfl⟩

theorem addcontent_spec {region : Region} {req req' : HttpRequest}
    {buf : Buffer} (hbuf : buf.Inv) {start : ℕ}
    (hcall : req.addcontent region buf start = .ok req') :
    req'.method_ = req.method_ ∧ 0 ≤ req'.contentLength ∧
      req'.m_string.length = req'.contentLength.toNat := by
  rcases HttpRequest.addcontent_eq_ok.mp hcall with ⟨_, _, hnonneg, hfit, rfl⟩
  have hlimit := limit_le hbuf region
  rw [HttpRequest.withContent_contentLength, HttpRequest.withContent_method_]
  refine ⟨rfl, hnonneg, ?_⟩
  calc
    (window buf.buffer_ start (start + req.contentLength.toNat)).length =
        start + req.contentLength.toNat - start :=
      length_window (hfit.trans hlimit)
    _ = req.contentLength.toNat := Nat.add_sub_cancel_left _ _

/-- What is known of the branch when it returns, whatever it read: the request
keeps its method, and its body has the length that the header names. -/
theorem parseBody_spec {region : Region} {req req' : HttpRequest}
    {buf buf' : Buffer} (hbuf : buf.Inv)
    (hcall : parseBody region req buf = .ok (req', buf')) :
    buf'.Inv ∧ buf'.buffer_ = buf.buffer_ ∧ req'.method_ = req.method_ ∧
      0 ≤ req'.contentLength ∧
      req'.m_string.length = req'.contentLength.toNat := by
  rcases bind_eq_ok.mp hcall with ⟨first, _, hrest⟩
  split at hrest
  · cases hcrlf : buf.findCRLF with
    | none =>
        simp only [hcrlf] at hrest
        cases hrest
    | some crlf =>
        simp only [hcrlf] at hrest
        rcases bind_eq_ok.mp hrest with ⟨_, _, hparts⟩
        rcases bind_eq_ok.mp hparts with ⟨⟨part, after⟩, hpart, htail⟩
        rcases bind_eq_ok.mp htail with ⟨_, _, hcontent⟩
        rcases bind_eq_ok.mp hcontent with ⟨request, hrequest, hresult⟩
        cases hresult
        have hheaders := partHeaders_spec (retrieve_inv hbuf _) hpart
        have hbody := addcontent_spec hheaders.1 hrequest
        exact ⟨hheaders.1, hheaders.2.1.trans (retrieve_buffer_ _ _),
          hbody.1.trans hheaders.2.2, hbody.2⟩
  · rcases bind_eq_ok.mp hrest with ⟨request, hrequest, hresult⟩
    cases hresult
    exact ⟨hbuf, rfl, addcontent_spec hbuf hrequest⟩

end MyFileServer
