import MyFileServer.Http.NextRequest

/-!
# Requests of one connection

A history is a run of a connection whose last call has handled a request.  The
session that it leaves is compared with a fresh context on the same input
buffer, under all bytes that may follow.
-/

namespace MyFileServer

open Execution Delimiter Buffer

/-- A run on a fresh connection whose last call has handled a request. -/
structure History where
  chunks : List Chunk
  final : Session
  calls : List MessageCall
  returns : run deliver {} chunks = .ok (final, calls)
  handles : ∃ call ∈ calls.getLast?, dispatched call.output ≠ []

theorem run_context {s final : Session} {chunks : List Chunk}
    {calls : List MessageCall} (hs : s.Inv)
    (hrun : run deliver s chunks = .ok (final, calls))
    (hlast : ∃ call ∈ calls.getLast?, dispatched call.output ≠ []) :
    final.context_ = ⟨.kExpectRequestLine, { m_string := final.body }⟩ := by
  induction chunks generalizing s calls with
  | nil =>
      obtain ⟨rfl, rfl⟩ := run_nil_eq_ok.mp hrun
      obtain ⟨call, hcall, _⟩ := hlast
      cases hcall
  | cons chunk chunks ih =>
      obtain ⟨next, output, rest, hstep, hrest, rfl⟩ := run_cons_eq_ok.mp hrun
      by_cases hend : rest = []
      · obtain ⟨call, hcall, hhandles⟩ := hlast
        subst hend
        cases hcall
        have hchunks : chunks = [] := (run_inputs hrest).symm
        subst hchunks
        obtain ⟨rfl, _⟩ := run_nil_eq_ok.mp hrest
        obtain ⟨_, _, _, _, hcases⟩ := deliver_cases hs hstep
        rcases hcases with ⟨ok, _, rfl⟩ | ⟨_, _, _, _, _, _, hafter, _⟩
        · exact absurd (dispatched_rejection ok) hhandles
        · unfold Session.body
          rw [hafter]
      · apply ih (deliver_inv hs hstep) hrest
        rw [List.getLast?_cons_of_ne_nil hend] at hlast
        exact hlast

def lastPost (requests : List HttpRequest) : Option HttpRequest :=
  (requests.filter fun req => req.method_ = .kPost).getLast?

theorem bodyAfter_eq_nil_iff {requests : List HttpRequest}
    (hsized : ∀ req ∈ requests, SizedBody req) :
    bodyAfter [] requests = [] ↔
      ∀ req ∈ lastPost requests, req.contentLength = 0 := by
  induction requests using List.reverseRecOn with
  | nil => simp [bodyAfter, lastPost]
  | append_singleton requests req ih =>
      have hbody : bodyAfter [] (requests ++ [req]) =
          if req.method_ = .kPost then req.m_string
          else bodyAfter [] requests := List.foldl_append
      unfold lastPost at ih ⊢
      rw [hbody, List.filter_append]
      by_cases hpost : req.method_ = .kPost
      · have hreq := hsized req (by simp) hpost
        have hkept : [req].filter (fun req => req.method_ = .kPost) = [req] := by
          simp [hpost]
        rw [if_pos hpost, hkept, List.getLast?_concat]
        rw [← List.length_eq_zero_iff, hreq.2]
        simp only [Option.mem_def, Option.some.injEq, forall_eq']
        have hnonneg := hreq.1
        omega
      · have hdropped :
            [req].filter (fun req => req.method_ = .kPost) = [] := by
          simp [hpost]
        rw [if_neg hpost, hdropped, List.append_nil]
        exact ih fun req hmem => hsized req (List.mem_append_left _ hmem)

namespace History

def LastBodyEmpty (h : History) : Prop :=
  ∀ req ∈ lastPost (requests h.calls), req.contentLength = 0

theorem final_context (h : History) :
    h.final.context_ = ⟨.kExpectRequestLine, { m_string := h.final.body }⟩ :=
  run_context Session.inv_fresh h.returns h.handles

theorem body_eq_nil_iff (h : History) :
    h.final.body = [] ↔ h.LastBodyEmpty := by
  have hbody := run_body Session.inv_fresh h.returns
  rw [hbody.1]
  exact bodyAfter_eq_nil_iff hbody.2

end History

/-! ## Isolation -/

namespace History

/-- A fresh context on the input buffer that the history leaves. -/
def fresh (h : History) : Session where
  inputBuffer_ := h.final.inputBuffer_

theorem final_inv (h : History) : h.final.Inv :=
  have hstep (s : Session) (chunk : Chunk) (next : Session) (output : List Action)
      (hs : s.Inv) (_ : True) (hdeliver : deliver s chunk = .ok (next, output)) :
      next.Inv :=
    deliver_inv hs hdeliver
  (run_invariant hstep h.returns Session.inv_fresh fun _ _ => trivial).1

theorem final_keepsPrepend (h : History) : h.final.inputBuffer_.KeepsPrepend :=
  have hstep (s : Session) (chunk : Chunk) (next : Session) (output : List Action)
      (hs : s.Inv ∧ s.inputBuffer_.KeepsPrepend) (_ : True)
      (hdeliver : deliver s chunk = .ok (next, output)) :
      next.Inv ∧ next.inputBuffer_.KeepsPrepend :=
    ⟨deliver_inv hs.1 hdeliver, deliver_keepsPrepend hs.1 hs.2 hdeliver⟩
  (run_invariant hstep h.returns ⟨Session.inv_fresh, le_rfl⟩ fun _ _ => trivial).1.2

theorem final_eq (h : History) : h.final = h.fresh.withBody h.final.body := by
  have hcontext := h.final_context
  rcases hfinal : h.final with ⟨context, buf⟩
  rw [hfinal] at hcontext
  unfold fresh
  rw [hfinal]
  exact congrArg (Session.mk · buf) hcontext

/-- Nothing of the history is left for the handler of a later request: the last
POST had no body, or the next request that is handled is a POST again. -/
def LeavesNoBody (h : History) : Prop :=
  h.LastBodyEmpty ∨ ¬ StartsBodiless h.final.inputBuffer_.readable

theorem forgotten_iff (h : History) :
    (∀ chunks, outputs h.final chunks = outputs h.fresh chunks) ↔ h.LeavesNoBody := by
  have hfresh : h.fresh.Inv := ⟨h.final_inv.buffer, .inl rfl⟩
  have hcontext := h.final_context
  constructor
  · intro hsame
    rw [LeavesNoBody, or_iff_not_imp_right, not_not, ← h.body_eq_nil_iff]
    intro hstarts
    obtain ⟨chunks, final, calls, hrun, hfirst⟩ :=
      hstarts.exists_firstBodiless h.final_inv h.final_keepsPrepend
        (congrArg HttpContext.state_ hcontext)
    exact body_eq_of_outputs h.final_inv hfresh hrun hfirst (hsame chunks)
  · rintro (hempty | hnot) chunks
    · rw [h.final_eq, h.body_eq_nil_iff.mpr hempty]
      rfl
    · rw [h.final_eq]
      exact (outputs_withBody ⟨hfresh, h.final_keepsPrepend, .inl ⟨rfl, hnot⟩⟩ _ chunks).symm

end History

/-- Whatever arrives next, the actions after either history are those of a
fresh context on the same input buffer, and so those after the other history. -/
structure Isolated (h₁ h₂ : History) : Prop where
  first : ∀ chunks, outputs h₁.final chunks = outputs h₁.fresh chunks
  second : ∀ chunks, outputs h₂.final chunks = outputs h₂.fresh chunks
  each_other : h₁.final.inputBuffer_ = h₂.final.inputBuffer_ →
    ∀ chunks, outputs h₁.final chunks = outputs h₂.final chunks

theorem isolated_iff (h₁ h₂ : History) :
    Isolated h₁ h₂ ↔ h₁.LeavesNoBody ∧ h₂.LeavesNoBody := by
  rw [← h₁.forgotten_iff, ← h₂.forgotten_iff]
  constructor
  · exact fun h => ⟨h.first, h.second⟩
  · rintro ⟨hfirst, hsecond⟩
    refine ⟨hfirst, hsecond, ?_⟩
    intro hsame chunks
    have hfresh : h₁.fresh = h₂.fresh := congrArg (Session.mk {}) hsame
    rw [hfirst, hsecond, hfresh]

def postNoBody : Chunk where
  data := ascii "POST / HTTP/1.1\r\nContent-Length: 3\r\n\r\n"

/-- The bodies that the handler sees. -/
def bodies (outputs : List (List Action)) : List Bytes :=
  (outputs.flatMap dispatched).map (·.m_string)

/-- The head of a POST whose body has not arrived: three stale bytes of the
buffer are taken for it, and the next request, a GET, carries them. -/
theorem not_isolated_post :
    ∃ h : History, h.chunks = [postNoBody] ∧
      (outputs h.final [{ data := getRoot.text }]).map bodies = .ok [ascii "POS"] ∧
      (outputs h.fresh [{ data := getRoot.text }]).map bodies = .ok [[]] ∧
      ¬ Isolated h h := by
  have hcheck :
      (run deliver {} [postNoBody]).map (fun r =>
        (r.2.map fun call => (dispatched call.output).length,
          (outputs r.1 [{ data := getRoot.text }]).map bodies,
          (outputs { inputBuffer_ := r.1.inputBuffer_ } [{ data := getRoot.text }]).map
            bodies)) =
      .ok ([1], .ok [ascii "POS"], .ok [[]]) := by
    decide +kernel
  obtain ⟨r, hrun, hr⟩ := exists_of_map_eq_ok hcheck
  obtain ⟨hlengths, houtputs⟩ := Prod.mk.inj hr
  obtain ⟨hkept, hfresh⟩ := Prod.mk.inj houtputs
  have hlast : ∃ call ∈ r.2.getLast?, dispatched call.output ≠ [] := by
    have hlength := congrArg List.getLast? hlengths
    simp only [List.getLast?_map] at hlength
    obtain ⟨call, hcall, hone⟩ := Option.map_eq_some_iff.mp hlength
    refine ⟨call, hcall, ?_⟩
    intro hnone
    rw [hnone] at hone
    cases hone
  refine ⟨⟨_, r.1, r.2, hrun, hlast⟩, rfl, hkept, hfresh, ?_⟩
  intro hisolated
  have hsame := congrArg (Except.map bodies) (hisolated.first [{ data := getRoot.text }])
  have hbad := hkept.symm.trans (hsame.trans hfresh)
  cases hbad

end MyFileServer
