import MyFileServer.Http.Chunking

/-!
# Requests that arrive together

`onMessage` calls the parser once and the parser stops at the end of a
request.  A request that waits in the buffer behind another one is read when
the peer sends more bytes, one request for each call.
-/

namespace MyFileServer

open Execution Delimiter Buffer

/-! ## A backlog -/

/-- The requests that a loop over the buffer would hand to `onRequest`. -/
def inTurn (t : Timestamp) : HttpRequest → List RequestHead → List HttpRequest
  | _, [] => []
  | req, head :: heads =>
      head.request req t :: inTurn t ((head.request req t).swap {}).1 heads

@[simp] theorem length_inTurn (t : Timestamp) (req : HttpRequest)
    (heads : List RequestHead) : (inTurn t req heads).length = heads.length := by
  induction heads generalizing req with
  | nil => rfl
  | cons head heads ih => exact congrArg (· + 1) (ih _)

/-- The bytes begin with a complete request of a method without a body. -/
def HoldsBodilessRequest (text : Bytes) : Prop :=
  ∃ (head : RequestHead) (rest : Bytes),
    head.line.method ≠ .kPost ∧ text = head.text ++ rest

theorem holdsBodilessRequest_backlog {heads : List RequestHead} {rest : Bytes}
    (hheads : ∀ head ∈ heads, head.line.method ≠ .kPost) :
    HoldsBodilessRequest (heads.flatMap (·.text) ++ rest) ↔
      heads ≠ [] ∨ HoldsBodilessRequest rest := by
  cases heads with
  | nil => simp
  | cons head heads =>
      simp only [ne_eq, reduceCtorEq, not_false_eq_true, true_or, iff_true]
      refine ⟨head, heads.flatMap (·.text) ++ rest, ?_, ?_⟩
      · exact hheads head List.mem_cons_self
      · rw [List.flatMap_cons, List.append_assoc]

theorem onMessage_head (head : RequestHead)
    (hhead : head.line.method ≠ .kPost) (req : HttpRequest) (t : Timestamp)
    {buf : Buffer} {rest : Bytes} (hbuf : buf.Inv)
    (hread : buf.readable = head.text ++ rest) :
    ∃ buf', buf'.readable = rest ∧
      onMessage ⟨.kExpectRequestLine, req⟩ buf t =
        .ok (⟨.kExpectRequestLine, ((head.request req t).swap {}).1⟩, buf',
          [.onRequest (head.request req t)]) := by
  have hends := head.headEnds t req rest
  rw [← hread] at hends
  have hmethod : (head.request req t).method_ ≠ .kPost := by
    rw [RequestHead.request_method_]
    exact hhead
  refine ⟨_, readable_retrieve_suffix hbuf hends.suffix, ?_⟩
  rw [onMessage_of_headEnds hbuf hends]
  unfold expectBody
  rw [if_neg hmethod]
  rfl

/-- Of the complete requests without a body in the buffer the first one is
dispatched.  The others are left there, and so is everything behind them. -/
theorem onMessage_backlog_iff (heads : List RequestHead) (rest : Bytes)
    (hne : heads ≠ [])
    (hheads : ∀ head ∈ heads, head.line.method ≠ .kPost)
    (req : HttpRequest) (t : Timestamp) {buf : Buffer} (hbuf : buf.Inv)
    (hread : buf.readable = heads.flatMap (·.text) ++ rest) :
    ∃ context buf' actions,
      onMessage ⟨.kExpectRequestLine, req⟩ buf t = .ok (context, buf', actions) ∧
      .send badRequest ∉ actions ∧
      (dispatched actions = inTurn t req heads ↔ heads.length = 1) ∧
      (¬ HoldsBodilessRequest buf'.readable ↔
        heads.length = 1 ∧ ¬ HoldsBodilessRequest rest) := by
  obtain ⟨head, waiting, rfl⟩ := List.exists_cons_of_ne_nil hne
  have hsplit := List.forall_mem_cons.mp hheads
  rw [List.flatMap_cons, List.append_assoc] at hread
  obtain ⟨buf', hleft, hcall⟩ := onMessage_head head hsplit.1 req t hbuf hread
  have hone : (head :: waiting).length = 1 ↔ waiting = [] := by
    simp
  refine ⟨_, buf', _, hcall, by simp, ?_, ?_⟩
  · rw [hone]
    constructor
    · intro hall
      have hlength := congrArg List.length hall
      rw [length_inTurn] at hlength
      exact hone.mp hlength.symm
    · rintro rfl
      rfl
  · rw [hleft, holdsBodilessRequest_backlog hsplit.2, hone]
    tauto

theorem onMessage_backlog_getRoot :
    ∃ context buf' actions,
      onMessage {} (ofReadable getRoot.text) {} = .ok (context, buf', actions) ∧
      dispatched actions = [getRoot.request {} {}] := by
  obtain ⟨context, buf', actions, hcall, _, hdispatched, _⟩ :=
    onMessage_backlog_iff [getRoot] [] (by simp)
      (by rintro head (_ | _); decide; contradiction) {} {}
      (ofReadable_inv (lt_maxSize (by decide)).le) (ofReadable_readable _)
  exact ⟨context, buf', actions, hcall, hdispatched.mpr rfl⟩

theorem not_pipelined_getRoot :
    ∃ context buf' actions,
      onMessage {} (ofReadable (getRoot.text ++ getRoot.text)) {} =
        .ok (context, buf', actions) ∧
      .send badRequest ∉ actions ∧
      dispatched actions = [getRoot.request {} {}] ∧
      dispatched actions ≠ inTurn {} {} [getRoot, getRoot] ∧
      HoldsBodilessRequest buf'.readable := by
  obtain ⟨buf', hleft, hcall⟩ :=
    onMessage_head getRoot (by decide) {} {}
      (ofReadable_inv (lt_maxSize (by decide)).le)
      (ofReadable_readable (getRoot.text ++ getRoot.text))
  refine ⟨_, buf', _, hcall, by simp, rfl, ?_, ?_⟩
  · intro hall
    cases congrArg List.length hall
  · rw [hleft]
    exact ⟨getRoot, [], by decide, (List.append_nil _).symm⟩

end MyFileServer
