import Mathlib.Tactic

/-!
# Iterations of a loop whose body may fail

A loop is a condition on the state and a body that computes the next state or
fails.  Iterations are counted, so that a bound on them can be stated.
-/

namespace Loop

variable {σ ε : Type}

/-- `n` iterations lead from one state to the other.  Each is entered under
the condition. -/
inductive Iterates (cond : σ → Prop) (body : σ → Except ε σ) :
    ℕ → σ → σ → Prop
  | none (s : σ) : Iterates cond body 0 s s
  | next {n : ℕ} {s s' last : σ} :
      cond s → body s = .ok s' → Iterates cond body n s' last →
      Iterates cond body (n + 1) s last

variable {cond : σ → Prop} {body : σ → Except ε σ}

theorem Iterates.invariant {Inv : σ → Prop}
    (hstep : ∀ s s', Inv s → cond s → body s = .ok s' → Inv s')
    {n : ℕ} {s last : σ} (hiterates : Iterates cond body n s last) (hs : Inv s) :
    Inv last := by
  induction hiterates with
  | none s => exact hs
  | next hcond hbody _ ih => exact ih (hstep _ _ hs hcond hbody)

/-- Where an iteration that does not meet `bad` either leaves the loop or
keeps the invariant and lowers the rank, the loop meets `bad` or is left
within one iteration more than the rank. -/
theorem meets_or_leaves {Inv bad : σ → Prop} {rank : σ → ℕ}
    (hstep : ∀ s, Inv s → cond s → ¬ bad s →
      ∃ s', body s = .ok s' ∧ (cond s' → Inv s' ∧ rank s' < rank s))
    {s : σ} (hs : Inv s) :
    (∃ n last, Iterates cond body n s last ∧ cond last ∧ bad last) ∨
      ∃ n last, n ≤ rank s + 1 ∧ Iterates cond body n s last ∧ ¬ cond last := by
  induction hrank : rank s using Nat.strong_induction_on generalizing s with
  | _ r ih =>
      by_cases hcond : cond s
      · by_cases hbad : bad s
        · exact .inl ⟨0, s, .none s, hcond, hbad⟩
        · obtain ⟨s', hbody, hnext⟩ := hstep s hs hcond hbad
          by_cases hcond' : cond s'
          · obtain ⟨hs', hlower⟩ := hnext hcond'
            have htail := ih (rank s') (by omega) hs' rfl
            rcases htail with ⟨n, last, hlast⟩ | ⟨n, last, hbound, hlast⟩
            · exact .inl ⟨n + 1, last, .next hcond hbody hlast.1, hlast.2⟩
            · exact .inr ⟨n + 1, last, by omega, .next hcond hbody hlast.1, hlast.2⟩
          · exact .inr ⟨1, s', by omega, .next hcond hbody (.none s'), hcond'⟩
      · exact .inr ⟨0, s, by omega, .none s, hcond⟩

end Loop
