import MyFileServer.Http.Chunking

/-!
# Framing of a body

The body branch runs in the call that completes the header section, whether
the body is there or not, and it leaves the body in the input buffer.
`firstDispatch` follows a connection to its first request; `bodyBuffer` is the
input buffer as the body branch finds it.
-/

namespace MyFileServer

open Execution Delimiter Buffer

/-- The bytes that have arrived when the first request is handed over, the
request, and the session after it. -/
def firstDispatch : Session → Bytes → List Chunk →
    Exec (Option (Bytes × HttpRequest × Session))
  | _, _, [] => return none
  | s, arrived, chunk :: chunks => do
      let (next, actions) ← deliver s chunk
      match dispatched actions with
      | request :: _ => return some (arrived ++ chunk.data, request, next)
      | [] => firstDispatch next (arrived ++ chunk.data) chunks

/-- The first request is handed over with exactly the body, once the body has
arrived, and leaves what has arrived behind it. -/
def Framed (head : RequestHead) (body : Bytes) (chunks : List Chunk) : Prop :=
  ∃ arrived request s,
    firstDispatch {} [] chunks = .ok (some (arrived, request, s)) ∧
    request.m_string = body ∧
    head.text ++ body ++ s.inputBuffer_.readable = arrived

/-- The input buffer behind a header section of which `size` bytes are still
to come, in the call that brings the last of them. -/
def bodyBuffer : ℕ → Session → List Chunk → Exec (Option Buffer)
  | _, _, [] => return none
  | size, s, chunk :: chunks =>
      if chunk.data.length < size then do
        let (next, _) ← deliver s chunk
        bodyBuffer (size - chunk.data.length) next chunks
      else do
        let buf ← s.inputBuffer_.receive chunk
        return some (buf.retrieve
          (buf.readable.length - (chunk.data.length - size)))

/-! ## Up to the body -/

/-- `size` bytes of a header section are still to come, and `tail` after
them. -/
structure Pending (req : HttpRequest) (tail : Bytes) (size : ℕ) (s : Session)
    (coming : Bytes) : Prop where
  session : s.Inv
  size_pos : 0 < size
  coming_length : coming.length = size + tail.length
  ends : ∃ t t' ok, HeadEnds t s.context_ (s.inputBuffer_.readable ++ coming) ok
    (req.setReceiveTime t') tail

section Pending

variable {req : HttpRequest} {tail coming : Bytes} {size : ℕ} {s : Session}
  {chunk : Chunk} {buf : Buffer}

theorem Pending.waits
    (hpending : Pending req tail size s (chunk.data ++ coming))
    (hshort : chunk.data.length < size)
    (hreceive : s.inputBuffer_.receive chunk = .ok buf) :
    ∃ next ok, deliver s chunk = .ok (next, rejection ok) ∧
      Pending req tail (size - chunk.data.length) next coming := by
  obtain ⟨hs, _, hlength, t, t', ok₀, hends⟩ := hpending
  have hread := (receive_spec hs.buffer hreceive).2.1
  rw [← List.append_assoc, ← hread] at hends
  rw [List.length_append] at hlength
  obtain ⟨ok, after, unread, hwaits⟩ :=
    headWaits_of_short hs.head hends (by omega) chunk.receiveTime
  obtain ⟨buf', hcall, hinv, hunread⟩ := deliver_of_headWaits hs hreceive hwaits
  obtain ⟨ok', t'', hrest⟩ := hwaits.resume hends
  refine ⟨_, ok, hcall, hinv, by omega, by omega, ?_⟩
  rw [← hunread] at hrest
  exact ⟨t, t'', ok', hrest⟩

theorem Pending.ends_within
    (hpending : Pending req tail size s (chunk.data ++ coming))
    (hlong : ¬ chunk.data.length < size)
    (hreceive : s.inputBuffer_.receive chunk = .ok buf) :
    ∃ t' ok rest,
      tail = rest ++ coming ∧ rest.length = chunk.data.length - size ∧
      HeadEnds chunk.receiveTime s.context_ buf.readable ok
        (req.setReceiveTime t') rest := by
  obtain ⟨hs, _, hlength, t, t', ok, hends⟩ := hpending
  have hread := (receive_spec hs.buffer hreceive).2.1
  rw [← List.append_assoc, ← hread] at hends
  rw [List.length_append] at hlength
  obtain ⟨rest, htail, hwithin⟩ := hends.of_append (by omega)
  obtain ⟨t'', hnow⟩ := hwithin.at_time chunk.receiveTime
  refine ⟨t'', ok, rest, htail, ?_, hnow⟩
  rw [htail, List.length_append] at hlength
  omega

end Pending

theorem deliver_of_fault {s : Session} {chunk : Chunk} {fault : Fault}
    (hreceive : s.inputBuffer_.receive chunk = .error fault) :
    deliver s chunk = .error fault := by
  unfold deliver
  rw [hreceive]
  rfl

/-- A connection with a pending header section faults before the body branch,
or it gets there with the buffer that `bodyBuffer` names. -/
theorem firstDispatch_pending {req : HttpRequest} {tail arrived : Bytes}
    {size : ℕ} {s : Session} {chunks : List Chunk}
    (hpending : Pending req tail size s (chunks.flatMap (·.data))) :
    (∃ fault, bodyBuffer size s chunks = .error fault ∧
      firstDispatch s arrived chunks = .error fault) ∨
    ∃ buf t past later,
      bodyBuffer size s chunks = .ok (some buf) ∧ buf.Inv ∧
      chunks.flatMap (·.data) = past ++ later ∧ tail = buf.readable ++ later ∧
      firstDispatch s arrived chunks =
        (fun r => some (arrived ++ past, r.1, Session.handled r.1.m_string r.2)) <$>
          expectBody .storage (req.setReceiveTime t) buf := by
  induction chunks generalizing s size arrived with
  | nil =>
      have hlength := hpending.coming_length
      have hpos := hpending.size_pos
      rw [List.flatMap_nil, List.length_nil] at hlength
      omega
  | cons chunk chunks ih =>
      rw [List.flatMap_cons] at hpending ⊢
      unfold bodyBuffer firstDispatch
      cases hreceive : s.inputBuffer_.receive chunk with
      | error fault =>
          have hfault := deliver_of_fault hreceive
          left
          refine ⟨fault, ?_, by rw [hfault]; rfl⟩
          split
          · rw [hfault]
            rfl
          · rfl
      | ok buf =>
          by_cases hshort : chunk.data.length < size
          · obtain ⟨next, ok, hcall, hnext⟩ := hpending.waits hshort hreceive
            rw [if_pos hshort]
            simp only [hcall, bind, Except.bind, dispatched_rejection]
            rcases ih hnext with
              hfault | ⟨body, t, past, later, hbody, hinv, hflat, htail, hfirst⟩
            · exact .inl hfault
            · right
              refine ⟨body, t, chunk.data ++ past, later, hbody, hinv, ?_, htail,
                ?_⟩
              · rw [hflat, List.append_assoc]
              · rw [hfirst, List.append_assoc]
          · obtain ⟨t, ok, rest, htail, hrest, hends⟩ :=
              hpending.ends_within hshort hreceive
            have hs := hpending.session
            have hbuf := (receive_spec hs.buffer hreceive).1
            have hcall := deliver_of_headEnds hs hreceive hends
            have hread := readable_retrieve_suffix hbuf hends.suffix
            right
            rw [if_neg hshort, ← hrest]
            refine ⟨_, t, chunk.data, _, rfl, retrieve_inv hbuf _, rfl, ?_, ?_⟩
            · rw [hread]
              exact htail
            · rw [hcall]
              cases expectBody .storage (req.setReceiveTime t)
                (buf.retrieve (buf.readable.length - rest.length)) with
              | error fault => rfl
              | ok r =>
                  simp only [Functor.map, Except.map, bind, Except.bind,
                    dispatched_handled]
                  rfl

/-! ## The body branch -/

theorem load_storage_first {b : Buffer} {text : Bytes} :
    b.load .storage b.peek 1 = .ok text ↔
      ∃ c, b.buffer_[b.readerIndex_]? = some c ∧ text = [c] := by
  rw [load_eq_ok]
  unfold peek
  simp only [limit, le_refl, true_and]
  constructor
  · intro h
    have hbyte := List.getElem?_eq_getElem h.1
    rw [Window.window_one hbyte] at h
    exact ⟨_, hbyte, h.2⟩
  · intro h
    obtain ⟨c, hbyte, rfl⟩ := h
    exact ⟨(List.getElem?_eq_some_iff.mp hbyte).1, (Window.window_one hbyte).symm⟩

theorem parseBody_dash_shorter {req req' : HttpRequest} {buf buf' : Buffer}
    {region : Region} (hbuf : buf.Inv)
    (hfirst : buf.load region buf.peek 1 = .ok [chr '-'])
    (hcall : parseBody region req buf = .ok (req', buf')) :
    buf'.readable.length < buf.readable.length := by
  rcases free_or_line kCRLF_ne_nil buf.readable with
    hfree | ⟨boundary, more, hread, hboundary⟩
  · rw [parseBody_unfinished hbuf hfirst hfree] at hcall
    cases hcall
  · rcases fields_open_or_closed more with
      ⟨fields, tail, hopen⟩ | ⟨fields, last, content, hclosed⟩
    · exact absurd ⟨_, hcall⟩
        (parseBody_open hbuf hfirst hread hboundary hopen)
    · obtain ⟨part, _, hcontent, _, hpart⟩ :=
        parseBody_closed hbuf hfirst hread hboundary hclosed
      rw [hpart req] at hcall
      obtain ⟨_, _, hrest⟩ := bind_eq_ok.mp hcall
      obtain ⟨_, _, hresult⟩ := bind_eq_ok.mp hrest
      cases hresult
      have hshort := length_closed_le hclosed
      rw [hcontent, hread, List.length_append]
      omega

/-- A body branch that takes the parts does not leave a body whole that starts
otherwise. -/
theorem parseBody_dash_not_framed {req req' : HttpRequest} {buf buf' : Buffer}
    {body : Bytes} (hbuf : buf.Inv)
    (hfirst : buf.load .storage buf.peek 1 = .ok [chr '-'])
    (hcall : parseBody .storage req buf = .ok (req', buf'))
    (hplain : body.head? ≠ some (chr '-')) :
    body ++ buf'.readable ≠ buf.readable := by
  intro hkept
  have hshorter := parseBody_dash_shorter hbuf hfirst hcall
  cases body with
  | nil =>
      rw [← hkept, List.nil_append] at hshorter
      exact absurd hshorter (Nat.lt_irrefl _)
  | cons a more =>
      have hhead : buf.readable.head? = some a := by
        rw [← hkept]
        rfl
      have hsame := (load_first hbuf .storage hhead).symm.trans hfirst
      rw [Except.ok.injEq, List.cons.injEq] at hsame
      apply hplain
      rw [← hsame.1]
      rfl

theorem parseBody_plain_framed {req : HttpRequest} {buf : Buffer} {c : UInt8}
    {body : Bytes} {r : HttpRequest × Buffer}
    (hload : buf.load .storage buf.peek 1 = .ok [c]) (hc : c ≠ chr '-')
    (hcall : parseBody .storage req buf = .ok r)
    (hkept : body ++ r.2.readable = buf.readable) :
    body = [] ∧ buf.readerIndex_ + 3 ≤ buf.buffer_.length := by
  rw [parseBody_plain hload hc] at hcall
  cases hcontent : req.addcontent .storage buf buf.peek with
  | error fault =>
      rw [hcontent] at hcall
      cases hcall
  | ok request =>
      rw [hcontent] at hcall
      cases hcall
      exact ⟨List.self_eq_append_left.mp hkept.symm,
        (HttpRequest.addcontent_eq_ok.mp hcontent).2.1⟩

theorem parseBody_empty {req : HttpRequest} {buf : Buffer}
    (hzero : req.contentLength = 0)
    (hroom : buf.readerIndex_ + 3 ≤ buf.buffer_.length)
    (hdash : buf.buffer_[buf.readerIndex_]? ≠ some (chr '-')) :
    parseBody .storage req buf = .ok (req.withContent [], buf) := by
  have hlt : buf.readerIndex_ < buf.buffer_.length := by omega
  have hbyte := List.getElem?_eq_getElem hlt
  have hload := load_storage_first.mpr ⟨_, hbyte, rfl⟩
  have hc : buf.buffer_[buf.readerIndex_] ≠ chr '-' := by
    intro hc
    exact hdash (hbyte.trans (congrArg some hc))
  have hcontent : req.addcontent .storage buf buf.peek =
      .ok (req.withContent []) := by
    refine HttpRequest.addcontent_eq_ok.mpr ⟨le_rfl, hroom, hzero.ge, ?_, ?_⟩
    · rw [hzero]
      exact hlt.le
    · rw [hzero]
      exact congrArg _ (Window.window_self _ _).symm
  rw [parseBody_plain hload hc, hcontent]
  rfl

theorem expectBody_frames_iff {req : HttpRequest} {buf : Buffer} {body : Bytes}
    (hbuf : buf.Inv) (hpost : req.method_ = .kPost)
    (hlength : body = [] → req.contentLength = 0)
    (hplain : body.head? ≠ some (chr '-')) :
    (∃ r, expectBody .storage req buf = .ok r ∧ r.1.m_string = body ∧
        body ++ r.2.readable = buf.readable) ↔
      body = [] ∧ buf.readerIndex_ + 3 ≤ buf.buffer_.length ∧
        buf.buffer_[buf.readerIndex_]? ≠ some (chr '-') := by
  unfold expectBody
  rw [if_pos hpost]
  constructor
  · intro h
    obtain ⟨r, hcall, _, hkept⟩ := h
    obtain ⟨first, hload, _⟩ := bind_eq_ok.mp hcall
    obtain ⟨c, hbyte, rfl⟩ := load_storage_first.mp hload
    by_cases hc : c = chr '-'
    · rw [hc] at hload
      exact absurd hkept (parseBody_dash_not_framed hbuf hload hcall hplain)
    · obtain ⟨hnil, hroom⟩ := parseBody_plain_framed hload hc hcall hkept
      refine ⟨hnil, hroom, ?_⟩
      rw [hbyte]
      simpa using hc
  · intro h
    obtain ⟨rfl, hroom, hdash⟩ := h
    exact ⟨_, parseBody_empty (hlength rfl) hroom hdash, rfl, rfl⟩

/-! ## A POST and what follows it -/

theorem RequestHead.pending (head : RequestHead) {tail coming : Bytes}
    (hcoming : coming = head.text ++ tail) :
    Pending (head.request {} {}) tail head.text.length {} coming := by
  refine ⟨Session.inv_fresh, List.length_pos_iff.mpr head.text_ne_nil, ?_,
    {}, {}, true, ?_⟩
  · rw [hcoming, List.length_append]
  · rw [hcoming, initial_readable, List.nil_append]
    exact head.headEnds {} {} tail

theorem framed_iff_expectBody {head : RequestHead} {req : HttpRequest}
    {body past : Bytes} {chunks : List Chunk} {buf : Buffer}
    (hfirst : firstDispatch {} [] chunks =
      (fun r => some ([] ++ past, r.1, Session.handled r.1.m_string r.2)) <$>
        expectBody .storage req buf)
    (hpast : past = head.text ++ buf.readable) :
    Framed head body chunks ↔
      ∃ r, expectBody .storage req buf = .ok r ∧ r.1.m_string = body ∧
        body ++ r.2.readable = buf.readable := by
  unfold Framed
  rw [hfirst, hpast]
  cases expectBody .storage req buf with
  | error fault =>
      apply iff_of_false
      · intro h
        obtain ⟨_, _, _, hcall, _⟩ := h
        cases hcall
      · intro h
        obtain ⟨_, hcall, _⟩ := h
        cases hcall
  | ok r =>
      constructor
      · intro h
        obtain ⟨_, _, _, hcall, hbody, hkept⟩ := h
        cases hcall
        rw [List.nil_append, List.append_assoc] at hkept
        exact ⟨r, rfl, hbody, List.append_cancel_left hkept⟩
      · intro h
        obtain ⟨_, hcall, hbody, hkept⟩ := h
        cases hcall
        refine ⟨_, _, _, rfl, hbody, ?_⟩
        rw [List.nil_append, List.append_assoc, ← hkept]
        rfl

/-- A POST is framed as its header says exactly when its body is empty, and
the vector holds neither a `-` behind the header section nor its own end. -/
theorem framed_iff (head : RequestHead) (hmethod : head.line.method = .kPost)
    {body rest : Bytes} {chunks : List Chunk}
    (hlength : (head.request {} {}).getHeader (ascii "Content-Length") =
      decimal body.length)
    (hplain : body.head? ≠ some (chr '-'))
    (hchunks : chunks.flatMap (·.data) = head.text ++ (body ++ rest)) :
    Framed head body chunks ↔
      body = [] ∧ ∃ buf, bodyBuffer head.text.length {} chunks = .ok (some buf) ∧
        buf.readerIndex_ + 3 ≤ buf.buffer_.length ∧
        buf.buffer_[buf.readerIndex_]? ≠ some (chr '-') := by
  rcases firstDispatch_pending (head.pending hchunks) with
    ⟨fault, hbuffer, hfirst⟩ |
    ⟨buf, t, past, later, hbuffer, hbuf, hflat, htail, hfirst⟩
  · apply iff_of_false
    · intro h
      obtain ⟨_, _, _, hcall, _⟩ := h
      rw [hfirst] at hcall
      cases hcall
    · intro h
      obtain ⟨_, _, hcall, _⟩ := h
      rw [hbuffer] at hcall
      cases hcall
  · have hpast : past = head.text ++ buf.readable := by
      rw [hchunks, htail, ← List.append_assoc] at hflat
      exact (List.append_cancel_right hflat).symm
    have hzero : body = [] →
        ((head.request {} {}).setReceiveTime t).contentLength = 0 := by
      intro hnil
      change atoi ((head.request {} {}).getHeader (ascii "Content-Length")) = 0
      rw [hlength, hnil]
      decide
    have hpost : ((head.request {} {}).setReceiveTime t).method_ = .kPost :=
      (head.request_method_ {} {}).trans hmethod
    rw [framed_iff_expectBody hfirst hpast,
      expectBody_frames_iff hbuf hpost hzero hplain]
    apply and_congr_right
    intro _
    constructor
    · intro hcond
      exact ⟨buf, hbuffer, hcond⟩
    · intro h
      obtain ⟨buf', hbuffer', hcond⟩ := h
      rw [hbuffer, Except.ok.injEq, Option.some.injEq] at hbuffer'
      subst hbuffer'
      exact hcond

def postHead (length : Bytes) (hlength : chr '\r' ∉ length) : RequestHead where
  line := .root .kPost (by decide)
  fields := [ascii "Content-Length: " ++ length]
  line_free := free_of_notMem (a := 13) (by decide) (by decide)
  fields_free := by
    intro field hfield
    rw [List.mem_singleton.mp hfield]
    apply free_of_notMem (a := 13) (by decide)
    rw [List.mem_append, not_or]
    exact ⟨by decide, hlength⟩
  fields_colon := by
    intro field hfield
    rw [List.mem_singleton.mp hfield]
    exact List.mem_append_left _ (by decide)

theorem framed_empty :
    Framed (postHead (ascii "0") (by decide)) []
      [{ data := (postHead (ascii "0") (by decide)).text }] := by
  let head := postHead (ascii "0") (by decide)
  have hcheck : (bodyBuffer head.text.length {} [{ data := head.text }]).map
      (Option.map fun buf => decide (buf.readerIndex_ + 3 ≤ buf.buffer_.length ∧
        buf.buffer_[buf.readerIndex_]? ≠ some (chr '-'))) = .ok (some true) := by
    decide +kernel
  obtain ⟨found, hbuffer, hfound⟩ := exists_of_map_eq_ok hcheck
  obtain ⟨buf, rfl, hcond⟩ := Option.map_eq_some_iff.mp hfound
  have hlength : (head.request {} {}).getHeader (ascii "Content-Length") =
      decimal ([] : Bytes).length := by
    decide
  have hchunks : [({ data := head.text } : Chunk)].flatMap (·.data) =
      head.text ++ ([] ++ []) := by
    simp
  exact (framed_iff head rfl hlength (by decide) hchunks).mpr
    ⟨rfl, buf, hbuffer, of_decide_eq_true hcond⟩

/-- The body `abcd`, all of it there, is left in the buffer as the next request
line. -/
theorem not_framed_abcd :
    let head := postHead (ascii "4") (by decide)
    (head.request {} {}).getHeader (ascii "Content-Length") =
        decimal (ascii "abcd").length ∧
      ¬ Framed head (ascii "abcd") [{ data := head.text ++ ascii "abcd" }] := by
  intro head
  refine ⟨by decide, ?_⟩
  intro h
  obtain ⟨arrived, request, s, hcall, _, hkept⟩ := h
  have hcheck :
      (firstDispatch {} [] [{ data := head.text ++ ascii "abcd" }]).map
        (Option.map fun r => (r.1, r.2.2.inputBuffer_.readable)) =
      .ok (some (head.text ++ ascii "abcd", ascii "abcd")) := by
    decide +kernel
  rw [hcall] at hcheck
  have hpair : (arrived, s.inputBuffer_.readable) =
      (head.text ++ ascii "abcd", ascii "abcd") :=
    Option.some.inj (Except.ok.inj hcheck)
  obtain ⟨rfl, hread⟩ := Prod.mk.inj hpair
  have hlengths := congrArg List.length hkept
  rw [hread, List.length_append] at hlengths
  have hfour : (ascii "abcd").length = 4 := rfl
  omega

end MyFileServer
