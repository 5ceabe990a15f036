import MyFileServer.Http.FileServer

/-!
# What the parser leaves alone

Two facts about the loop of the parser that do not depend on the text.  It
changes the buffer by `retrieve` only, so what `retrieve` keeps, it keeps.  And
it never reads the body that an earlier request has left: two sessions that
differ in that body stay the same otherwise, until a request without body is
handled, and become equal with the next POST.
-/

namespace MyFileServer

open Execution Delimiter Buffer

/-! ## The bytes in front of the content -/

/-- `prepend` finds its eight bytes in front of the content. -/
def Buffer.KeepsPrepend (b : Buffer) : Prop :=
  kCheapPrepend ≤ b.readerIndex_

theorem Buffer.KeepsPrepend.length_le {b : Buffer} (hb : b.KeepsPrepend) (hinv : b.Inv) :
    kCheapPrepend + b.readable.length ≤ maxSize := by
  have hlength := length_readable hinv
  have hreader := hinv.reader_le
  have hwriter := hinv.writer_le
  have hfits := hinv.length_le
  unfold KeepsPrepend at hb
  unfold readableBytes at hlength
  omega

theorem Buffer.KeepsPrepend.retrieve {b : Buffer} (hb : b.KeepsPrepend) (len : ℕ) :
    (b.retrieve len).KeepsPrepend := by
  unfold Buffer.retrieve
  split
  · exact hb.trans (Nat.le_add_right _ _)
  · exact le_rfl

theorem Buffer.KeepsPrepend.append {b b' : Buffer} (hb : b.KeepsPrepend) (hinv : b.Inv)
    {data : Bytes} (happend : b.append data = .ok b') : b'.KeepsPrepend := by
  obtain ⟨spaced, hspace, hroom, rfl⟩ := append_eq_ok.mp happend
  rcases ensureWritableBytes_cases hinv.writer_le hspace hroom with
    rfl | ⟨n, _, _, rfl⟩ | ⟨_, rfl⟩
  · exact hb
  · exact hb
  · exact le_rfl

theorem Buffer.KeepsPrepend.receive {b b' : Buffer} (hb : b.KeepsPrepend) (hinv : b.Inv)
    {chunk : Chunk} (hreceive : b.receive chunk = .ok b') : b'.KeepsPrepend := by
  unfold Buffer.receive at hreceive
  split at hreceive
  · exact hb.append hinv hreceive
  · by_cases hdata : chunk.data.length ≤ b.writableBytes
    · rw [readFd_of_le hdata, Except.ok.injEq] at hreceive
      subst hreceive
      exact hb
    · rw [readFd_of_gt hinv (not_le.mp hdata)] at hreceive
      have hfilled := filled_spec hinv (List.length_take_le b.writableBytes chunk.data)
      have hkeep : (b.filled (chunk.data.take b.writableBytes)).KeepsPrepend := hb
      exact hkeep.append hfilled.1 hreceive

section Keeps

variable {P : Buffer → Prop} {region : Region}

theorem partHeaders_keeps (hretrieve : ∀ b n, P b → P (b.retrieve n)) (fuel : ℕ)
    (req : HttpRequest) {buf : Buffer} (hbuf : P buf) :
    Ends (fun _ => True) (fun r => P r.2) (partHeaders region fuel req buf) := by
  induction fuel generalizing req buf with
  | zero => trivial
  | succ fuel ih =>
      unfold partHeaders
      cases buf.findCRLF with
      | none => trivial
      | some crlf =>
          refine (ends_trivial _).bind ?_
          intro line _
          by_cases hcolon : line.idxOf (chr ':') ≠ line.length
          · simp only [if_pos hcolon]
            exact (ends_trivial _).bind fun _ _ => ih _ (hretrieve _ _ hbuf)
          · simp only [if_neg hcolon]
            exact hretrieve _ _ hbuf

theorem parseBody_keeps (hretrieve : ∀ b n, P b → P (b.retrieve n))
    (req : HttpRequest) {buf : Buffer} (hbuf : P buf) :
    Ends (fun _ => True) (fun r => P r.2) (parseBody region req buf) := by
  unfold parseBody
  refine (ends_trivial _).bind ?_
  intro first _
  by_cases hdash : first = [chr '-']
  · rw [if_pos hdash]
    cases buf.findCRLF with
    | none => trivial
    | some crlf =>
        refine (ends_trivial _).bind fun _ _ => ?_
        refine (partHeaders_keeps hretrieve _ req (hretrieve _ _ hbuf)).bind ?_
        intro part hpart
        refine (ends_trivial _).bind fun _ _ => (ends_trivial _).bind fun _ _ => ?_
        exact hpart
  · rw [if_neg hdash]
    exact (ends_trivial _).bind fun _ _ => hbuf

theorem parseStep_keeps (hretrieve : ∀ b n, P b → P (b.retrieve n)) (t : Timestamp)
    {s : ParseLoop} (hs : P s.buf) :
    Ends (fun _ => True) (fun s' => P s'.buf) (parseStep region t s) := by
  unfold parseStep
  cases s.context.state_ with
  | kExpectRequestLine =>
      cases s.buf.findCRLF with
      | none => exact hs
      | some crlf =>
          refine (ends_trivial _).bind ?_
          intro line _
          cases hread : processRequestLine s.context.request_ line with
          | mk ok req =>
              cases ok with
              | true => exact hretrieve _ _ hs
              | false => exact hs
  | kExpectHeaders =>
      cases s.buf.findCRLF with
      | none => exact hs
      | some crlf => exact (ends_trivial _).bind fun _ _ => hretrieve _ _ hs
  | kExpectBody =>
      simp only
      split
      · exact (parseBody_keeps hretrieve _ hs).bind fun _ h => h
      · exact hs
  | kGotAll => exact hs

theorem parseLoop_keeps (hretrieve : ∀ b n, P b → P (b.retrieve n)) (t : Timestamp)
    (fuel : ℕ) {s : ParseLoop} (hs : P s.buf) :
    Ends (fun _ => True) (fun s' => P s'.buf) (parseLoop region t fuel s) := by
  induction fuel generalizing s with
  | zero =>
      unfold parseLoop
      split
      · trivial
      · exact hs
  | succ fuel ih =>
      unfold parseLoop
      split
      · exact (parseStep_keeps hretrieve t hs).bind fun _ => ih
      · exact hs

theorem onMessage_keeps (hretrieve : ∀ b n, P b → P (b.retrieve n))
    (context : HttpContext) {buf : Buffer} (t : Timestamp) (hbuf : P buf) :
    Ends (fun _ => True) (fun r => P r.2.1) (onMessage context buf t) := by
  unfold onMessage parseRequest
  rw [bind_assoc]
  refine (parseLoop_keeps hretrieve t _ (s := ⟨context, buf, false, true⟩) hbuf).bind ?_
  intro s hs
  simp only [pure_bind]
  by_cases hall : s.context.gotAll = true
  · rw [if_pos hall]
    exact hs
  · rw [if_neg hall]
    exact hs

end Keeps

theorem deliver_keepsPrepend {s s' : Session} {chunk : Chunk} {actions : List Action}
    (hs : s.Inv) (hkeeps : s.inputBuffer_.KeepsPrepend)
    (hstep : deliver s chunk = .ok (s', actions)) : s'.inputBuffer_.KeepsPrepend := by
  obtain ⟨buf, hreceive, hcall⟩ := bind_eq_ok.mp hstep
  obtain ⟨r, hmessage, hresult⟩ := bind_eq_ok.mp hcall
  cases hresult
  have hbuf := hkeeps.receive hs.buffer hreceive
  exact (onMessage_keeps (fun _ n h => h.retrieve n) s.context_ chunk.receiveTime
    hbuf).of_eq_ok hmessage

/-! ## Another body in the request -/

def HttpRequest.withBody (req : HttpRequest) (body : Bytes) : HttpRequest :=
  { req with m_string := body }

def HttpContext.withBody (context : HttpContext) (body : Bytes) : HttpContext :=
  { context with request_ := context.request_.withBody body }

def ParseLoop.withBody (s : ParseLoop) (body : Bytes) : ParseLoop :=
  { s with context := s.context.withBody body }

def Session.withBody (s : Session) (body : Bytes) : Session :=
  { s with context_ := s.context_.withBody body }

section WithBody

variable (body : Bytes)

theorem processRequestLine_withBody (req : HttpRequest) (line : Bytes) :
    processRequestLine (req.withBody body) line =
      ((processRequestLine req line).1,
        (processRequestLine req line).2.withBody body) := by
  unfold processRequestLine HttpRequest.setMethod
  simp only
  split_ifs <;> rfl

theorem headerAt_withBody (req : HttpRequest) (key : Bytes) :
    (req.withBody body).headerAt key =
      ((req.headerAt key).1, (req.headerAt key).2.withBody body) := by
  have hheaders : (req.withBody body).headers_ = req.headers_ := rfl
  unfold HttpRequest.headerAt
  rw [hheaders]
  cases req.headers_.lookup key <;> rfl

variable {region : Region}

theorem addcontent_withBody (req : HttpRequest) (buf : Buffer) (start : ℕ) :
    (req.withBody body).addcontent region buf start =
      req.addcontent region buf start := by
  unfold HttpRequest.addcontent
  rw [headerAt_withBody]
  rfl

theorem partHeaders_withBody (fuel : ℕ) (req : HttpRequest) (buf : Buffer) :
    partHeaders region fuel (req.withBody body) buf =
      (fun r => (r.1.withBody body, r.2)) <$> partHeaders region fuel req buf := by
  induction fuel generalizing req buf with
  | zero => rfl
  | succ fuel ih =>
      unfold partHeaders
      cases buf.findCRLF with
      | none => rfl
      | some crlf =>
          simp only
          cases buf.load region buf.peek (crlf - buf.peek) with
          | error fault => rfl
          | ok line =>
              simp only [bind, Except.bind]
              split
              · cases buf.load region buf.peek 1 with
                | error fault => rfl
                | ok first => exact ih (req.addHeader line (line.idxOf (chr ':'))) _
              · rfl

/-- The body branch writes the body without reading the one before it. -/
theorem parseBody_withBody (req : HttpRequest) (buf : Buffer) :
    parseBody region (req.withBody body) buf = parseBody region req buf := by
  unfold parseBody
  simp only [partHeaders_withBody, addcontent_withBody]
  cases buf.load region buf.peek 1 with
  | error fault => rfl
  | ok first =>
      simp only [bind, Except.bind]
      split
      · cases buf.findCRLF with
        | none => rfl
        | some crlf =>
            simp only
            cases (buf.retrieveUntil (crlf + 2)).load region
                (buf.retrieveUntil (crlf + 2)).peek 1 with
            | error fault => rfl
            | ok second =>
                simp only
                cases partHeaders region ((buf.retrieveUntil (crlf + 2)).readableBytes + 1)
                    req (buf.retrieveUntil (crlf + 2)) with
                | error fault => rfl
                | ok part => simp only [Functor.map, Except.map, addcontent_withBody]
      · rfl

end WithBody

/-- The same but for the body, as long as no POST has been read to its end. -/
def ParseLoop.BodyApart (s s' : ParseLoop) : Prop :=
  s' = s ∨ ∃ body, s' = s.withBody body ∧
    (s.context.state_ = .kGotAll → s.context.request_.method_ ≠ .kPost)

section Loop

variable {region : Region} (t : Timestamp)

theorem parseStep_withBody (s : ParseLoop) (body : Bytes)
    (hpost : s.context.state_ = .kGotAll → s.context.request_.method_ ≠ .kPost) :
    Related ParseLoop.BodyApart (parseStep region t s)
      (parseStep region t (s.withBody body)) := by
  rcases s with ⟨⟨state, req⟩, buf, ok, more⟩
  unfold parseStep ParseLoop.withBody HttpContext.withBody
  cases state with
  | kExpectRequestLine =>
      simp only
      cases buf.findCRLF with
      | none => exact .value (.inr ⟨body, rfl, nofun⟩)
      | some crlf =>
          refine (Related.refl (R := Eq) (fun _ => rfl) _).bind ?_
          rintro line _ rfl
          rw [processRequestLine_withBody]
          cases (processRequestLine req line).1 with
          | false => exact .value (.inr ⟨body, rfl, nofun⟩)
          | true => exact .value (.inr ⟨body, rfl, nofun⟩)
  | kExpectHeaders =>
      simp only
      cases buf.findCRLF with
      | none => exact .value (.inr ⟨body, rfl, nofun⟩)
      | some crlf =>
          refine (Related.refl (R := Eq) (fun _ => rfl) _).bind ?_
          rintro line _ rfl
          by_cases hcolon : line.idxOf (chr ':') ≠ line.length
          · simp only [if_pos hcolon]
            exact .value (.inr ⟨body, rfl, nofun⟩)
          · simp only [if_neg hcolon]
            exact .value (.inr ⟨body, rfl, nofun⟩)
  | kExpectBody =>
      have hmethod : (req.withBody body).method_ = req.method_ := rfl
      simp only [hmethod]
      by_cases hbody : req.method_ = .kPost
      · simp only [if_pos hbody, parseBody_withBody]
        exact Related.refl (fun _ => .inl rfl) _
      · simp only [if_neg hbody]
        exact .value (.inr ⟨body, rfl, fun _ => hbody⟩)
  | kGotAll => exact .value (.inr ⟨body, rfl, hpost⟩)

theorem parseLoop_bodyApart (fuel : ℕ) {s s' : ParseLoop} (happart : s.BodyApart s') :
    Related ParseLoop.BodyApart (parseLoop region t fuel s)
      (parseLoop region t fuel s') := by
  induction fuel generalizing s s' with
  | zero =>
      rcases happart with rfl | ⟨body, rfl, hpost⟩
      · exact Related.refl (fun _ => .inl rfl) _
      · have hmore : (s.withBody body).hasMore = s.hasMore := rfl
        unfold parseLoop
        rw [hmore]
        split
        · exact .fault _
        · exact .value (.inr ⟨body, rfl, hpost⟩)
  | succ fuel ih =>
      rcases happart with rfl | ⟨body, rfl, hpost⟩
      · exact Related.refl (fun _ => .inl rfl) _
      · cases hmore : s.hasMore with
        | true =>
            rw [parseLoop_succ hmore, parseLoop_succ (s := s.withBody body) hmore]
            exact (parseStep_withBody t s body hpost).bind fun _ _ => ih
        | false =>
            rw [parseLoop_stopped hmore, parseLoop_stopped (s := s.withBody body) hmore]
            exact .value (.inr ⟨body, rfl, hpost⟩)

end Loop

def HandlesOther (actions : List Action) : Prop :=
  ∃ req ∈ dispatched actions, req.method_ ≠ .kPost

/-- Two calls that end alike, or after which the bodies still differ with
nothing handled, unless the handler of a request without body has seen them. -/
def CallsApart (r r' : Session × List Action) : Prop :=
  r' = r ∨ HandlesOther r.2 ∨
    ∃ body, r' = (r.1.withBody body, r.2) ∧ dispatched r.2 = []

theorem onMessage_withBody (context : HttpContext) (buf : Buffer) (t : Timestamp)
    (body : Bytes) (hstate : context.state_ ≠ .kGotAll) :
    Related (fun r r' => r' = r ∨ HandlesOther r.2.2 ∨
        ∃ body, r' = (r.1.withBody body, r.2) ∧ dispatched r.2.2 = [])
      (onMessage context buf t) (onMessage (context.withBody body) buf t) := by
  unfold onMessage parseRequest
  have hstart : (⟨context, buf, false, true⟩ : ParseLoop).BodyApart
      ⟨context.withBody body, buf, false, true⟩ :=
    .inr ⟨body, rfl, fun h => absurd h hstate⟩
  have hloop := @parseLoop_bodyApart .storage t (buf.readableBytes + 1) _ _ hstart
  rw [bind_assoc, bind_assoc]
  refine hloop.bind ?_
  rintro s s' (rfl | ⟨body, rfl, hpost⟩)
  · exact Related.refl (fun _ => .inl rfl) _
  · have hgot : (s.withBody body).context.gotAll = s.context.gotAll := rfl
    simp only [pure_bind, hgot]
    by_cases hall : s.context.gotAll = true
    · rw [if_pos hall, if_pos hall]
      refine .value (.inr (.inl ⟨s.context.request_, ?_, hpost ?_⟩))
      · cases s.ok <;> simp [dispatched]
      · simpa [HttpContext.gotAll] using hall
    · rw [if_neg hall, if_neg hall]
      exact .value (.inr (.inr ⟨body, rfl, dispatched_rejection s.ok⟩))

theorem deliver_withBody {s : Session} (hs : s.Inv) (chunk : Chunk) (body : Bytes) :
    Related CallsApart (deliver s chunk) (deliver (s.withBody body) chunk) := by
  have hstate : s.context_.state_ ≠ .kGotAll := by
    rcases hs.head with hhead | hhead <;> rw [hhead] <;> nofun
  unfold deliver
  refine (Related.refl (R := Eq) (fun _ => rfl) _).bind ?_
  rintro buf _ rfl
  refine (onMessage_withBody s.context_ buf chunk.receiveTime body hstate).bind ?_
  rintro ⟨context, buf', actions⟩ ⟨context', buf'', actions'⟩ (h | h | ⟨body, h, hnone⟩)
  · cases h
    exact .value (.inl rfl)
  · exact .value (.inr (.inl h))
  · cases h
    exact .value (.inr (.inr ⟨body, rfl, hnone⟩))

end MyFileServer
