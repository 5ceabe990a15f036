import MyFileServer.Http.Chunking
import MyFileServer.Lib.Loop

/-!
# The loop of the parser ends

The loop of `parseRequest` has no branch for `kGotAll`: entered in that state
it never ends, and `onMessage` never enters it there.  In every other state an
iteration leaves the loop or retrieves a whole line, which is at least two of
the readable bytes.
-/

namespace MyFileServer

open Execution Delimiter Buffer

def ParseIterates (t : Timestamp) : ℕ → ParseLoop → ParseLoop → Prop :=
  Loop.Iterates (·.hasMore = true) (parseStep .storage t)

namespace ParseLoop

/-- The next iteration takes the branch of the body of a POST. -/
def AtPostBody (s : ParseLoop) : Prop :=
  s.context.state_ = .kExpectBody ∧ s.context.request_.method_ = .kPost

structure Live (s : ParseLoop) : Prop where
  buffer : s.buf.Inv
  not_gotAll : s.context.state_ ≠ .kGotAll

end ParseLoop

/-- Some iteration of the call takes the branch of the body of a POST. -/
def EntersPostBody (t : Timestamp) (context : HttpContext) (buf : Buffer) :
    Prop :=
  ∃ n s, ParseIterates t n { context, buf } s ∧ s.hasMore = true ∧ s.AtPostBody

/-! ## One iteration -/

section Iteration

variable {region : Region} {t : Timestamp}

theorem readableBytes_after_line {buf : Buffer} (hbuf : buf.Inv)
    {line rest : Bytes} (hread : buf.readable = line ++ kCRLF ++ rest) :
    (buf.retrieve (line ++ kCRLF).length).readableBytes + 2 ≤
      buf.readableBytes := by
  have hcrlf : kCRLF.length = 2 := rfl
  rw [← length_readable (retrieve_inv hbuf _), ← length_readable hbuf,
    readable_after_line hbuf hread, hread]
  simp only [List.length_append]
  omega

theorem parseStep_progress {s : ParseLoop} (hs : s.Live)
    (hmore : s.hasMore = true) (hpost : ¬ s.AtPostBody) :
    ∃ s', parseStep region t s = .ok s' ∧
      (s'.hasMore = true →
        s'.Live ∧ s'.buf.readableBytes / 2 < s.buf.readableBytes / 2) := by
  rcases s with ⟨⟨state, req⟩, buf, ok, more⟩
  obtain rfl : more = true := hmore
  have hbuf : buf.Inv := hs.buffer
  cases state with
  | kExpectRequestLine =>
      rcases free_or_line kCRLF_ne_nil buf.readable with
        hfree | ⟨line, rest, hread, hline⟩
      · exact ⟨_, parseStep_unfinished hbuf hfree (.inl rfl), by simp⟩
      · have hbytes := readableBytes_after_line hbuf hread
        rcases hcall : processRequestLine req line with ⟨known, req'⟩
        refine ⟨_, parseStep_requestLine hbuf hread hline hcall, ?_⟩
        cases known with
        | false => simp
        | true =>
            intro _
            refine ⟨⟨retrieve_inv hbuf _, by simp⟩, ?_⟩
            simp only [if_true]
            omega
  | kExpectHeaders =>
      rcases free_or_line kCRLF_ne_nil buf.readable with
        hfree | ⟨line, rest, hread, hline⟩
      · exact ⟨_, parseStep_unfinished hbuf hfree (.inr rfl), by simp⟩
      · have hbytes := readableBytes_after_line hbuf hread
        refine ⟨_, parseStep_headerLine hbuf hread hline, ?_⟩
        intro _
        refine ⟨⟨retrieve_inv hbuf _, ?_⟩, ?_⟩
        · simp only
          split <;> simp
        · simp only
          omega
  | kExpectBody =>
      have hmethod : req.method_ ≠ .kPost := fun h => hpost ⟨rfl, h⟩
      refine ⟨⟨⟨.kGotAll, req⟩, buf, ok, false⟩, ?_, by simp⟩
      unfold parseStep
      simp only [if_neg hmethod]
      rfl
  | kGotAll => exact absurd rfl hs.not_gotAll

theorem parseStep_gotAll {s : ParseLoop} (hstate : s.context.state_ = .kGotAll) :
    parseStep region t s = .ok s := by
  unfold parseStep
  rw [hstate]
  rfl

/-- The method is set with the request line and kept from then on. -/
theorem parseStep_method {s s' : ParseLoop}
    (hstate : s.context.state_ ≠ .kExpectRequestLine)
    (hstep : parseStep region t s = .ok s') (hpost : ¬ s.AtPostBody) :
    s'.context.state_ ≠ .kExpectRequestLine ∧
      s'.context.request_.method_ = s.context.request_.method_ := by
  rcases s with ⟨⟨state, req⟩, buf, ok, more⟩
  unfold parseStep at hstep
  cases state with
  | kExpectRequestLine => exact absurd rfl hstate
  | kExpectHeaders =>
      simp only at hstep
      split at hstep
      · obtain ⟨line, _, hline⟩ := bind_eq_ok.mp hstep
        cases hline
        simp only
        split <;> exact ⟨by simp, rfl⟩
      · cases hstep
        exact ⟨by simp, rfl⟩
  | kExpectBody =>
      have hmethod : req.method_ ≠ .kPost := fun h => hpost ⟨rfl, h⟩
      simp only [if_neg hmethod] at hstep
      cases hstep
      exact ⟨by simp, rfl⟩
  | kGotAll =>
      cases hstep
      exact ⟨by simp, rfl⟩

end Iteration

/-! ## The loop -/

section Loop

variable {t : Timestamp} {context : HttpContext} {buf : Buffer}

theorem parseLoop_of_iterates {n : ℕ} {s last : ParseLoop}
    (hiterates : ParseIterates t n s last) (hstop : last.hasMore = false)
    {fuel : ℕ} (hfuel : n ≤ fuel) :
    parseLoop .storage t fuel s = .ok last := by
  induction hiterates generalizing fuel with
  | none s => exact parseLoop_stopped hstop
  | @next n s s' last hmore hstep _ ih =>
      obtain ⟨more, rfl⟩ := Nat.exists_eq_add_of_le hfuel
      rw [Nat.add_right_comm, parseLoop_step hmore hstep]
      exact ih hstop (Nat.le_add_right n more)

theorem parseLoop_gotAll {region : Region} {s : ParseLoop}
    (hmore : s.hasMore = true) (hstate : s.context.state_ = .kGotAll)
    (fuel : ℕ) : parseLoop region t fuel s = .error .diverges := by
  induction fuel with
  | zero =>
      simp only [parseLoop, hmore, if_true]
      rfl
  | succ fuel ih => rw [parseLoop_step hmore (parseStep_gotAll hstate), ih]

theorem parseRequest_gotAll {region : Region} (hstate : context.state_ = .kGotAll) :
    parseRequest region context buf t = .error .diverges := by
  unfold parseRequest
  rw [parseLoop_gotAll rfl hstate]
  rfl

/-- Within one iteration for every two readable bytes and one more, the call
returns what the loop has then. -/
theorem parseRequest_of_live (hbuf : buf.Inv) (hstate : context.state_ ≠ .kGotAll)
    (hpost : ¬ EntersPostBody t context buf) :
    ∃ n last, n ≤ buf.readableBytes / 2 + 1 ∧
      ParseIterates t n { context, buf } last ∧ last.hasMore = false ∧
      parseRequest .storage context buf t =
        .ok ⟨last.ok, last.context, last.buf⟩ := by
  have hlive : ParseLoop.Live { context, buf } := ⟨hbuf, hstate⟩
  have hstep : ∀ s : ParseLoop, s.Live → s.hasMore = true → ¬ s.AtPostBody →
      ∃ s', parseStep .storage t s = .ok s' ∧
        (s'.hasMore = true →
          s'.Live ∧ s'.buf.readableBytes / 2 < s.buf.readableBytes / 2) := by
    intro s hs hmore hbody
    exact parseStep_progress hs hmore hbody
  rcases Loop.meets_or_leaves hstep hlive with
    ⟨n, last, hiterates, hmore, hbody⟩ | ⟨n, last, hbound, hiterates, hleft⟩
  · exact absurd ⟨n, last, hiterates, hmore, hbody⟩ hpost
  · have hstop : last.hasMore = false := Bool.eq_false_iff.mpr hleft
    refine ⟨n, last, hbound, hiterates, hstop, ?_⟩
    have hfuel : n ≤ buf.readableBytes + 1 := by
      have hhalf := Nat.div_le_self buf.readableBytes 2
      simp only at hbound
      omega
    unfold parseRequest
    rw [parseLoop_of_iterates hiterates hstop hfuel]
    rfl

/-- A call that keeps out of that branch returns from every state but `kGotAll`. -/
theorem parseRequest_returns_iff (hbuf : buf.Inv)
    (hpost : ¬ EntersPostBody t context buf) :
    Returns (parseRequest .storage context buf t) ↔
      context.state_ ≠ .kGotAll := by
  constructor
  · intro hreturns hstate
    rw [parseRequest_gotAll hstate] at hreturns
    exact not_returns_error _ hreturns
  · intro hstate
    obtain ⟨_, _, _, _, _, hcall⟩ := parseRequest_of_live hbuf hstate hpost
    exact ⟨_, hcall⟩

theorem ParseIterates.not_atPostBody {n : ℕ} {s last : ParseLoop}
    (hiterates : ParseIterates t n s last)
    (hstate : s.context.state_ ≠ .kExpectRequestLine)
    (hmethod : s.context.request_.method_ ≠ .kPost) : ¬ last.AtPostBody := by
  have hkeep : ∀ s s' : ParseLoop,
      s.context.state_ ≠ .kExpectRequestLine ∧
        s.context.request_.method_ ≠ .kPost →
      s.hasMore = true → parseStep .storage t s = .ok s' →
      s'.context.state_ ≠ .kExpectRequestLine ∧
        s'.context.request_.method_ ≠ .kPost := by
    intro s s' hs _ hstep
    have hnext := parseStep_method hs.1 hstep fun hbody => hs.2 hbody.2
    rw [hnext.2]
    exact ⟨hnext.1, hs.2⟩
  have hlast := Loop.Iterates.invariant hkeep hiterates ⟨hstate, hmethod⟩
  exact fun hbody => hlast.2 hbody.2

/-- The head of a request with another method keeps the call out of the
branch. -/
theorem RequestHead.not_entersPostBody (head : RequestHead)
    (hmethod : head.line.method ≠ .kPost) (hbuf : buf.Inv) {rest : Bytes}
    (hread : buf.readable = head.text ++ rest) (req : HttpRequest) :
    ¬ EntersPostBody t ⟨.kExpectRequestLine, req⟩ buf := by
  rintro ⟨n, s, hiterates, _, hbody⟩
  cases hiterates with
  | none => cases hbody.1
  | next _ hstep hrest =>
      have hline : buf.readable = head.line.text ++ kCRLF ++
          (frame kCRLF head.fields ++ kCRLF ++ rest) := by
        rw [hread, RequestHead.text]
        simp only [List.append_assoc]
      rw [parseStep_requestLine hbuf hline head.line_free
        (processRequestLine_text head.line req)] at hstep
      cases hstep
      refine ParseIterates.not_atPostBody hrest (by simp) ?_ hbody
      change (head.line.read req).method_ ≠ .kPost
      rwa [head.line.read_method_]

end Loop

/-- No sequence of chunks leaves the parser of a connection in `kGotAll`, and
from the state that it is left in every call that keeps out of the body of a
POST returns; from `kGotAll` none would. -/
theorem parseRequest_terminates {s : Session} (hreach : Reachable deliver {} s) :
    s.context_.state_ ≠ .kGotAll ∧
      (∀ (buf : Buffer) (t : Timestamp), buf.Inv →
        ¬ EntersPostBody t s.context_ buf →
        ∃ n last, n ≤ buf.readableBytes / 2 + 1 ∧
          ParseIterates t n { context := s.context_, buf } last ∧
          last.hasMore = false ∧
          parseRequest .storage s.context_ buf t =
            .ok ⟨last.ok, last.context, last.buf⟩) ∧
      ∀ (context : HttpContext) (buf : Buffer) (t : Timestamp), buf.Inv →
        ¬ EntersPostBody t context buf →
        (Returns (parseRequest .storage context buf t) ↔ context.state_ ≠ .kGotAll) := by
  have hstate : s.context_.state_ ≠ .kGotAll := by
    rcases (reachable_inv hreach).head with hline | hheaders
    · simp [hline]
    · simp [hheaders]
  refine ⟨hstate, ?_, ?_⟩
  · intro buf t hbuf hpost
    exact parseRequest_of_live hbuf hstate hpost
  · intro context buf t hbuf hpost
    exact parseRequest_returns_iff hbuf hpost

theorem parseRequest_terminates_get :
    ∃ n last, n ≤ (ofReadable getRoot.text).readableBytes / 2 + 1 ∧
      ParseIterates {} n { context := {}, buf := ofReadable getRoot.text } last ∧
      last.hasMore = false ∧
      parseRequest .storage {} (ofReadable getRoot.text) {} =
        .ok ⟨last.ok, last.context, last.buf⟩ := by
  have hbuf : (ofReadable getRoot.text).Inv :=
    ofReadable_inv (lt_maxSize (by decide)).le
  have hread : (ofReadable getRoot.text).readable = getRoot.text ++ [] := by
    rw [ofReadable_readable, List.append_nil]
  have hpost : ¬ EntersPostBody {} {} (ofReadable getRoot.text) :=
    getRoot.not_entersPostBody (by decide) hbuf hread {}
  exact (parseRequest_terminates .start).2.1 _ {} hbuf hpost

end MyFileServer
