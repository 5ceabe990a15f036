import MyFileServer.Http.Chunking

/-!
# Bounds of the parser

With the region `.readable` every read outside the readable bytes, every use
of a null pointer and every negative length is a fault.  Up to the body there
is none; in the body branch there is none exactly for a safe body.
-/

namespace MyFileServer

open Execution Delimiter Buffer

theorem finishRequest_returns_iff {ok : Bool} {request : HttpRequest}
    {buf : Buffer} (hbuf : buf.Inv) :
    Returns (finishRequest .readable ok request buf) ↔
      (request.method_ = .kPost → SafeBody request buf.readable) := by
  unfold finishRequest expectBody
  rw [returns_map]
  by_cases hpost : request.method_ = .kPost
  · rw [if_pos hpost, parseBody_returns_iff hbuf]
    exact ⟨fun hsafe _ => hsafe, fun hsafe => hsafe hpost⟩
  · rw [if_neg hpost]
    exact iff_of_true (returns_pure _) fun h => absurd h hpost

/-- A call keeps to the readable bytes exactly when every POST whose header
section it completes is followed by a safe body. -/
theorem parseRequest_in_bounds_iff {s : Session}
    (hreach : Reachable deliver {} s) {buf : Buffer} (hbuf : buf.Inv)
    (t : Timestamp) :
    Returns (parseRequest .readable s.context_ buf t) ↔
      ∀ ok request rest, HeadEnds t s.context_ buf.readable ok request rest →
        request.method_ = .kPost → SafeBody request rest := by
  have hhead := (reachable_inv hreach).head
  rcases headWaits_or_headEnds t hhead buf.readable with
    ⟨ok, after, unread, hwaits⟩ | ⟨ok, request, rest, hends⟩
  · obtain ⟨buf', hcall, _⟩ := parseRequest_of_headWaits .readable hbuf hwaits
    apply iff_of_true ⟨_, hcall⟩
    intro ok' request rest hends
    exact (hwaits.not_headEnds hends).elim
  · have hrest := readable_retrieve_suffix hbuf hends.suffix
    rw [parseRequest_of_headEnds .readable hbuf hends,
      finishRequest_returns_iff (retrieve_inv hbuf _), hrest]
    constructor
    · intro hsafe ok' request' rest' hends'
      have hunique := hends.unique hends'
      rw [← hunique.2.1, ← hunique.2.2]
      exact hsafe
    · intro hsafe
      exact hsafe ok request rest hends

theorem parseRequest_in_bounds_get :
    Returns (parseRequest .readable {} (ofReadable getRoot.text) {}) := by
  have hbuf : (ofReadable getRoot.text).Inv :=
    ofReadable_inv (lt_maxSize (by decide)).le
  refine (parseRequest_in_bounds_iff .start hbuf {}).mpr ?_
  intro ok request rest hends hpost
  have hget := getRoot.headEnds {} {} []
  rw [List.append_nil, ← ofReadable_readable getRoot.text] at hget
  have hrequest := (hget.unique hends).2.1
  rw [← hrequest] at hpost
  cases hpost

def OutOfBounds (text : Bytes) : Prop :=
  (ofReadable text).Inv ∧
    ¬ Returns (parseRequest .readable {} (ofReadable text) {})

theorem outOfBounds_of_fault {text : Bytes}
    (hfit : kCheapPrepend + text.length ≤ maxSize)
    (hfault : (parseRequest .readable {} (ofReadable text) {}).isOk = false) :
    OutOfBounds text := by
  refine ⟨ofReadable_inv hfit, ?_⟩
  intro hreturns
  obtain ⟨parsed, hparsed⟩ := hreturns
  rw [hparsed] at hfault
  cases hfault

/-- A POST whose body has not arrived, one whose body is shorter than its
`Content-Length`, one with a negative length, and a part without an end. -/
theorem parseRequest_out_of_bounds :
    OutOfBounds (ascii "POST / HTTP/1.1\r\n\r\n") ∧
      OutOfBounds (ascii "POST / HTTP/1.1\r\nContent-Length: 9\r\n\r\nabc") ∧
      OutOfBounds (ascii "POST / HTTP/1.1\r\nContent-Length: -1\r\n\r\nabc") ∧
      OutOfBounds
        (ascii "POST / HTTP/1.1\r\nContent-Length: 5\r\n\r\n--b\r\na: b") := by
  refine ⟨?_, ?_, ?_, ?_⟩ <;> apply outOfBounds_of_fault
  all_goals first | exact (lt_maxSize (by decide)).le | decide +kernel

end MyFileServer
