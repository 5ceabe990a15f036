import Mathlib.Tactic

/-!
# Runs of a step function that may fail

A component is a step function: from a state and an input it computes a new
state and an output, or it fails.  A run feeds a list of inputs and records
every call with the state it started from.  The rules here carry a fact about
one step to every call of a run, with or without a condition on the inputs,
and carry a simulation of one step to whole runs.
-/

namespace Execution

variable {σ τ ι ω ε α β : Type}

theorem bind_eq_ok {x : Except ε α} {f : α → Except ε β} {r : β} :
    x >>= f = .ok r ↔ ∃ a, x = .ok a ∧ f a = .ok r := by
  cases x with
  | error e => simp [bind, Except.bind]
  | ok a => simp [bind, Except.bind]

def Returns (x : Except ε α) : Prop :=
  ∃ a, x = .ok a

@[simp] theorem returns_ok (a : α) : Returns (.ok a : Except ε α) :=
  ⟨a, rfl⟩

@[simp] theorem returns_pure (a : α) : Returns (pure a : Except ε α) :=
  ⟨a, rfl⟩

@[simp] theorem not_returns_error (e : ε) :
    ¬ Returns (.error e : Except ε α) := by
  intro h
  rcases h with ⟨a, ha⟩
  cases ha

theorem returns_bind {x : Except ε α} {f : α → Except ε β} :
    Returns (x >>= f) ↔ ∃ a, x = .ok a ∧ Returns (f a) := by
  constructor
  · intro h
    rcases h with ⟨r, hr⟩
    rcases bind_eq_ok.mp hr with ⟨a, ha, hf⟩
    exact ⟨a, ha, r, hf⟩
  · intro h
    rcases h with ⟨a, ha, r, hr⟩
    exact ⟨r, bind_eq_ok.mpr ⟨a, ha, hr⟩⟩

theorem returns_map {x : Except ε α} {f : α → β} :
    Returns (f <$> x) ↔ Returns x := by
  cases x with
  | error e => exact iff_of_false (not_returns_error e) (not_returns_error e)
  | ok a => exact iff_of_true (returns_ok (f a)) (returns_ok a)

/-- A computation that fails only in an allowed way, and else ends with a
value that meets the postcondition. -/
def Ends (allowed : ε → Prop) (post : α → Prop) : Except ε α → Prop
  | .ok a => post a
  | .error e => allowed e

section Ends

variable {allowed : ε → Prop} {post : α → Prop} {x : Except ε α}

theorem Ends.of_eq_ok {a : α} (hx : Ends allowed post x) (ha : x = .ok a) :
    post a := by
  rw [ha] at hx
  exact hx

theorem Ends.mono {weaker : α → Prop} (hx : Ends allowed post x)
    (himp : ∀ a, post a → weaker a) : Ends allowed weaker x := by
  cases x with
  | ok a => exact himp a hx
  | error e => exact hx

theorem Ends.bind {after : β → Prop} {f : α → Except ε β}
    (hx : Ends allowed post x) (hf : ∀ a, post a → Ends allowed after (f a)) :
    Ends allowed after (x >>= f) := by
  cases x with
  | ok a => exact hf a hx
  | error e => exact hx

theorem ends_trivial (x : Except ε α) :
    Ends (fun _ => True) (fun _ => True) x := by
  cases x <;> trivial

/-- The rule of a loop over a list; the invariant speaks about the elements
treated so far. -/
theorem Ends.foldlM {Inv : List α → β → Prop} {f : β → α → Except ε β}
    (hstep : ∀ past b a, Inv past b → Ends allowed (Inv (past ++ [a])) (f b a))
    (past : List α) {b : β} (hb : Inv past b) (todo : List α) :
    Ends allowed (Inv (past ++ todo)) (todo.foldlM f b) := by
  induction todo generalizing past b with
  | nil =>
      rw [List.append_nil]
      exact hb
  | cons a todo ih =>
      rw [List.foldlM_cons]
      refine (hstep past b a hb).bind ?_
      intro b' hb'
      have htail := ih (past ++ [a]) hb'
      rwa [List.append_assoc] at htail

end Ends

theorem map_eq_ok {x : Except ε α} {f : α → β} {b : β} :
    f <$> x = .ok b ↔ ∃ a, x = .ok a ∧ f a = b := by
  cases x with
  | error e => simp [Functor.map, Except.map]
  | ok a => simp [Functor.map, Except.map]

theorem exists_of_map_eq_ok {x : Except ε α} {f : α → β} {b : β}
    (h : x.map f = .ok b) : ∃ a, x = .ok a ∧ f a = b :=
  map_eq_ok.mp h

theorem ite_eq_ok {p : Prop} [Decidable p] {a b : α} {e : ε} :
    (if p then .ok a else .error e) = (.ok b : Except ε α) ↔ p ∧ b = a := by
  by_cases h : p
  · rw [if_pos h, Except.ok.injEq]
    exact ⟨fun hab => ⟨h, hab.symm⟩, fun hab => hab.2.symm⟩
  · rw [if_neg h]
    apply iff_of_false
    · intro habsurd
      cases habsurd
    · exact fun hab => h hab.1

/-! ## Two computations side by side -/

/-- Two computations that fail with the same fault, or end with related
values. -/
inductive Related (R : α → β → Prop) : Except ε α → Except ε β → Prop
  | fault (e : ε) : Related R (.error e) (.error e)
  | value {a : α} {b : β} : R a b → Related R (.ok a) (.ok b)

section Related

variable {γ δ : Type} {R : α → β → Prop} {S : γ → δ → Prop}
  {x : Except ε α} {y : Except ε β}

theorem Related.refl {R : α → α → Prop} (hR : ∀ a, R a a) (x : Except ε α) :
    Related R x x := by
  cases x with
  | error e => exact .fault e
  | ok a => exact .value (hR a)

theorem Related.mono {weaker : α → β → Prop} (hxy : Related R x y)
    (himp : ∀ a b, R a b → weaker a b) : Related weaker x y := by
  cases hxy with
  | fault e => exact .fault e
  | value hab => exact .value (himp _ _ hab)

theorem Related.bind (hxy : Related R x y) {f : α → Except ε γ}
    {g : β → Except ε δ} (hfg : ∀ a b, R a b → Related S (f a) (g b)) :
    Related S (x >>= f) (y >>= g) := by
  cases hxy with
  | fault e => exact .fault e
  | value hab => exact hfg _ _ hab

theorem Related.map (hxy : Related R x y) {f : α → γ} {g : β → δ}
    (hfg : ∀ a b, R a b → S (f a) (g b)) : Related S (f <$> x) (g <$> y) := by
  cases hxy with
  | fault e => exact .fault e
  | value hab => exact .value (hfg _ _ hab)

theorem Related.ite {p q : Prop} [Decidable p] [Decidable q] (hpq : p ↔ q)
    {a : α} {b : β} {e : ε} (hab : p → R a b) :
    Related R (if p then .ok a else .error e) (if q then .ok b else .error e) := by
  by_cases hp : p
  · rw [if_pos hp, if_pos (hpq.mp hp)]
    exact .value (hab hp)
  · rw [if_neg hp, if_neg (mt hpq.mpr hp)]
    exact .fault e

end Related

/-- One step taken in a run: the state it started from, its input and its
output. -/
structure Call (σ ι ω : Type) where
  pre : σ
  input : ι
  output : ω

/-- Feed the inputs one after another, recording the calls. -/
def run (step : σ → ι → Except ε (σ × ω)) :
    σ → List ι → Except ε (σ × List (Call σ ι ω))
  | s, [] => .ok (s, [])
  | s, i :: inputs => do
      let (next, output) ← step s i
      let (final, calls) ← run step next inputs
      return (final, ⟨s, i, output⟩ :: calls)

variable {step : σ → ι → Except ε (σ × ω)}

@[simp] theorem run_nil (s : σ) : run step s [] = .ok (s, []) := rfl

theorem run_nil_eq_ok {s final : σ} {calls : List (Call σ ι ω)} :
    run step s [] = .ok (final, calls) ↔ final = s ∧ calls = [] := by
  rw [run_nil, Except.ok.injEq, Prod.mk.injEq]
  constructor <;> intro h <;> exact ⟨h.1.symm, h.2.symm⟩

theorem run_cons_eq_ok
    {s final : σ} {i : ι} {inputs : List ι} {calls : List (Call σ ι ω)} :
    run step s (i :: inputs) = .ok (final, calls) ↔
      ∃ next output rest,
        step s i = .ok (next, output) ∧
        run step next inputs = .ok (final, rest) ∧
        calls = ⟨s, i, output⟩ :: rest := by
  simp only [run, bind_eq_ok]
  constructor
  · intro h
    rcases h with ⟨⟨next, output⟩, hstep, ⟨final', rest⟩, hrun, hresult⟩
    have hfinal : final' = final ∧ ⟨s, i, output⟩ :: rest = calls := by
      simpa [pure, Except.pure] using hresult
    exact ⟨next, output, rest, hstep, hfinal.1 ▸ hrun, hfinal.2.symm⟩
  · intro h
    rcases h with ⟨next, output, rest, hstep, hrun, hcalls⟩
    exact ⟨(next, output), hstep, (final, rest), hrun, by rw [hcalls]; rfl⟩

theorem run_append_eq_ok
    {s final : σ} {inputs inputs' : List ι} {calls : List (Call σ ι ω)} :
    run step s (inputs ++ inputs') = .ok (final, calls) ↔
      ∃ mid first later, run step s inputs = .ok (mid, first) ∧
        run step mid inputs' = .ok (final, later) ∧ calls = first ++ later := by
  induction inputs generalizing s calls with
  | nil =>
      constructor
      · intro hrun
        exact ⟨s, [], calls, rfl, hrun, rfl⟩
      · intro h
        obtain ⟨mid, first, later, hfirst, hlater, rfl⟩ := h
        obtain ⟨rfl, rfl⟩ := run_nil_eq_ok.mp hfirst
        exact hlater
  | cons i inputs ih =>
      rw [List.cons_append, run_cons_eq_ok]
      constructor
      · intro h
        obtain ⟨next, output, rest, hstep, hrest, rfl⟩ := h
        obtain ⟨mid, first, later, hfirst, hlater, rfl⟩ := ih.mp hrest
        exact ⟨mid, _, later,
          run_cons_eq_ok.mpr ⟨next, output, first, hstep, hfirst, rfl⟩, hlater, rfl⟩
      · intro h
        obtain ⟨mid, first, later, hfirst, hlater, rfl⟩ := h
        obtain ⟨next, output, rest, hstep, hrest, rfl⟩ := run_cons_eq_ok.mp hfirst
        exact ⟨next, output, rest ++ later, hstep,
          ih.mpr ⟨mid, rest, later, hrest, hlater, rfl⟩, rfl⟩

theorem run_inputs
    {s final : σ} {inputs : List ι} {calls : List (Call σ ι ω)}
    (hrun : run step s inputs = .ok (final, calls)) :
    calls.map (·.input) = inputs := by
  induction inputs generalizing s calls with
  | nil =>
      rw [(run_nil_eq_ok.mp hrun).2]
      rfl
  | cons i inputs ih =>
      rcases run_cons_eq_ok.mp hrun with ⟨next, output, rest, _, hrest, hcalls⟩
      rw [hcalls, List.map_cons, ih hrest]

/-- A run whose calls are cut in two is two runs. -/
theorem run_split
    {s final : σ} {inputs : List ι} {first later : List (Call σ ι ω)}
    (hrun : run step s inputs = .ok (final, first ++ later)) :
    ∃ mid, run step s (first.map (·.input)) = .ok (mid, first) ∧
      run step mid (later.map (·.input)) = .ok (final, later) := by
  have hinputs := run_inputs hrun
  rw [List.map_append] at hinputs
  rw [← hinputs] at hrun
  obtain ⟨mid, first', later', hfirst, hlater, hsplit⟩ := run_append_eq_ok.mp hrun
  have hlength := congrArg List.length (run_inputs hfirst)
  rw [List.length_map, List.length_map] at hlength
  obtain ⟨rfl, rfl⟩ := List.append_inj hsplit hlength.symm
  exact ⟨mid, hfirst, hlater⟩

/-! ## Facts about every call -/

/-- A step rule for an invariant gives the run rule: while every call meets
the guard, the invariant holds before every call and at the end. -/
theorem run_invariant
    {Inv : σ → Prop} {guard : σ → ι → Prop}
    (hstep : ∀ s i next output, Inv s → guard s i →
      step s i = .ok (next, output) → Inv next)
    {s final : σ} {inputs : List ι} {calls : List (Call σ ι ω)}
    (hrun : run step s inputs = .ok (final, calls)) (hs : Inv s)
    (hguard : ∀ call ∈ calls, guard call.pre call.input) :
    Inv final ∧ ∀ call ∈ calls, Inv call.pre := by
  induction inputs generalizing s calls with
  | nil =>
      rcases run_nil_eq_ok.mp hrun with ⟨rfl, rfl⟩
      exact ⟨hs, by simp⟩
  | cons i inputs ih =>
      rcases run_cons_eq_ok.mp hrun with
        ⟨next, output, rest, hfirst, hrest, rfl⟩
      have hsplit := List.forall_mem_cons.mp hguard
      have hnext := hstep s i next output hs hsplit.1 hfirst
      have htail := ih hrest hnext hsplit.2
      exact ⟨htail.1, List.forall_mem_cons.mpr ⟨hs, htail.2⟩⟩

/-- A step that always succeeds from the invariant gives a run that
succeeds, and what each step promises of its output holds at every call. -/
theorem run_total
    {Inv : σ → Prop} {post : ω → Prop}
    (hstep : ∀ s i, Inv s →
      ∃ next output, step s i = .ok (next, output) ∧ Inv next ∧ post output)
    {s : σ} (hs : Inv s) (inputs : List ι) :
    ∃ final calls, run step s inputs = .ok (final, calls) ∧ Inv final ∧
      ∀ call ∈ calls, Inv call.pre ∧ post call.output := by
  induction inputs generalizing s with
  | nil => exact ⟨s, [], rfl, hs, by simp⟩
  | cons i inputs ih =>
      obtain ⟨next, output, hfirst, hnext, hpost⟩ := hstep s i hs
      obtain ⟨final, rest, hrest, hfinal, hcalls⟩ := ih hnext
      refine ⟨final, ⟨s, i, output⟩ :: rest, ?_, hfinal, ?_⟩
      · exact run_cons_eq_ok.mpr ⟨next, output, rest, hfirst, hrest, rfl⟩
      · exact List.forall_mem_cons.mpr ⟨⟨hs, hpost⟩, hcalls⟩

theorem run_call
    {s final : σ} {inputs : List ι} {calls : List (Call σ ι ω)}
    (hrun : run step s inputs = .ok (final, calls)) :
    ∀ call ∈ calls,
      ∃ next, step call.pre call.input = .ok (next, call.output) := by
  induction inputs generalizing s calls with
  | nil =>
      rw [(run_nil_eq_ok.mp hrun).2]
      simp
  | cons i inputs ih =>
      rcases run_cons_eq_ok.mp hrun with
        ⟨next, output, rest, hfirst, hrest, rfl⟩
      exact List.forall_mem_cons.mpr ⟨⟨next, hfirst⟩, ih hrest⟩

/-- The run rule for an invariant that also speaks about the calls so far. -/
theorem run_history
    {Inv : List (Call σ ι ω) → σ → Prop} {guard : σ → ι → Prop}
    (hstep : ∀ past s i next output, Inv past s → guard s i →
      step s i = .ok (next, output) → Inv (past ++ [⟨s, i, output⟩]) next)
    {past : List (Call σ ι ω)} {s final : σ} {inputs : List ι}
    {calls : List (Call σ ι ω)}
    (hrun : run step s inputs = .ok (final, calls)) (hs : Inv past s)
    (hguard : ∀ call ∈ calls, guard call.pre call.input) :
    Inv (past ++ calls) final := by
  induction inputs generalizing s calls past with
  | nil =>
      rcases run_nil_eq_ok.mp hrun with ⟨rfl, rfl⟩
      rwa [List.append_nil]
  | cons i inputs ih =>
      rcases run_cons_eq_ok.mp hrun with
        ⟨next, output, rest, hfirst, hrest, rfl⟩
      have hsplit := List.forall_mem_cons.mp hguard
      have hnext := hstep past s i next output hs hsplit.1 hfirst
      have htail := ih hrest hnext hsplit.2
      rwa [List.append_assoc] at htail

/-- The same rule for a step that may fail in an allowed way. -/
theorem Ends.run
    {Inv : List (Call σ ι ω) → σ → Prop} {allowed : ε → Prop}
    (hstep : ∀ past s i, Inv past s →
      Ends allowed (fun r => Inv (past ++ [⟨s, i, r.2⟩]) r.1) (step s i))
    {past : List (Call σ ι ω)} {s : σ} (hs : Inv past s) (inputs : List ι) :
    Ends allowed (fun r => Inv (past ++ r.2) r.1) (Execution.run step s inputs) := by
  induction inputs generalizing s past with
  | nil =>
      change Inv (past ++ []) s
      rwa [List.append_nil]
  | cons i inputs ih =>
      refine (hstep past s i hs).bind ?_
      intro r hr
      refine (ih hr).bind ?_
      intro r' hr'
      rw [List.append_assoc] at hr'
      exact hr'

/-- The same for an invariant with a budget, from which each input takes its
cost. -/
theorem Ends.run_budget
    {Inv : ℕ → σ → Prop} {allowed : ε → Prop} {guard : ι → Prop} {cost : ι → ℕ}
    (hstep : ∀ n s i, guard i → Inv (cost i + n) s →
      Ends allowed (fun r => Inv n r.1) (step s i))
    {s : σ} {inputs : List ι} (hguard : ∀ i ∈ inputs, guard i)
    (hs : Inv (inputs.map cost).sum s) :
    Ends allowed (fun r => Inv 0 r.1 ∧ ∀ call ∈ r.2, ∃ n, Inv n call.pre)
      (Execution.run step s inputs) := by
  induction inputs generalizing s with
  | nil => exact ⟨hs, by simp⟩
  | cons i inputs ih =>
      have hsplit := List.forall_mem_cons.mp hguard
      have hcost : Inv (cost i + (inputs.map cost).sum) s := by
        simpa using hs
      refine (hstep _ s i hsplit.1 hcost).bind ?_
      intro r hr
      refine (ih hsplit.2 hr).bind ?_
      intro r' hr'
      exact ⟨hr'.1, List.forall_mem_cons.mpr ⟨⟨_, hs⟩, hr'.2⟩⟩

/-- Every step of the run, as far as it gets, meets the guard. -/
def Guarded (step : σ → ι → Except ε (σ × ω)) (guard : σ → ι → Prop) :
    σ → List ι → Prop
  | _, [] => True
  | s, i :: inputs =>
      guard s i ∧
        ∀ next output, step s i = .ok (next, output) →
          Guarded step guard next inputs

theorem Guarded.mono
    {guard guard' : σ → ι → Prop} {s : σ} {inputs : List ι}
    (hguard : Guarded step guard s inputs)
    (hweaken : ∀ s i, guard s i → guard' s i) : Guarded step guard' s inputs := by
  induction inputs generalizing s with
  | nil => trivial
  | cons i inputs ih =>
      refine ⟨hweaken s i hguard.1, ?_⟩
      intro next output hnext
      exact ih (hguard.2 next output hnext)

theorem Guarded.and_forall
    {guard : σ → ι → Prop} {allowed : ι → Prop} {s : σ} {inputs : List ι}
    (hguard : Guarded step guard s inputs) (hallowed : ∀ i ∈ inputs, allowed i) :
    Guarded step (fun s i => allowed i ∧ guard s i) s inputs := by
  induction inputs generalizing s with
  | nil => trivial
  | cons i inputs ih =>
      have hsplit := List.forall_mem_cons.mp hallowed
      refine ⟨⟨hsplit.1, hguard.1⟩, ?_⟩
      intro next output hnext
      exact ih (hguard.2 next output hnext) hsplit.2

theorem Guarded.of_append
    {guard : σ → ι → Prop} {s : σ} {before after : List ι}
    (hguard : Guarded step guard s (before ++ after)) :
    Guarded step guard s before := by
  induction before generalizing s with
  | nil => trivial
  | cons i before ih =>
      refine ⟨hguard.1, ?_⟩
      intro next output hnext
      exact ih (hguard.2 next output hnext)

theorem Guarded.append
    {guard : σ → ι → Prop} {s : σ} {before after : List ι}
    (hbefore : Guarded step guard s before)
    (hafter : ∀ mid calls, run step s before = .ok (mid, calls) → Guarded step guard mid after) :
    Guarded step guard s (before ++ after) := by
  induction before generalizing s with
  | nil => exact hafter s [] rfl
  | cons i before ih =>
      refine ⟨hbefore.1, ?_⟩
      intro next output hnext
      refine ih (hbefore.2 next output hnext) ?_
      intro mid calls hrun
      exact hafter mid _ (run_cons_eq_ok.mpr ⟨next, output, calls, hnext, hrun, rfl⟩)

/-- The rule for a step that may fail in an allowed way, under a guard, with an
invariant that also speaks about the inputs to come. -/
theorem Ends.run_guarded
    {Inv : List (Call σ ι ω) → List ι → σ → Prop} {allowed : ε → Prop} {guard : σ → ι → Prop}
    (hstep : ∀ past todo s i, Inv past (i :: todo) s → guard s i →
      Ends allowed (fun r => Inv (past ++ [⟨s, i, r.2⟩]) todo r.1) (step s i))
    {past : List (Call σ ι ω)} {s : σ} {inputs : List ι} (hs : Inv past inputs s)
    (hguard : Guarded step guard s inputs) :
    Ends allowed (fun r => Inv (past ++ r.2) [] r.1) (Execution.run step s inputs) := by
  induction inputs generalizing s past with
  | nil =>
      change Inv (past ++ []) [] s
      rwa [List.append_nil]
  | cons i inputs ih =>
      have hfirst := hstep past inputs s i hs hguard.1
      unfold Execution.run
      cases hnext : step s i with
      | error e =>
          rw [hnext] at hfirst
          exact hfirst
      | ok r =>
          rw [hnext] at hfirst
          refine (ih hfirst (hguard.2 r.1 r.2 hnext)).bind ?_
          intro r' hr'
          rw [List.append_assoc] at hr'
          exact hr'

theorem Guarded.run
    {Inv : σ → Prop} {guard : σ → ι → Prop}
    (hstep : ∀ s i, Inv s → guard s i →
      ∃ next output, step s i = .ok (next, output) ∧ Inv next)
    {s : σ} {inputs : List ι} (hs : Inv s)
    (hguard : Guarded step guard s inputs) :
    ∃ final calls, Execution.run step s inputs = .ok (final, calls) ∧
      ∀ call ∈ calls, guard call.pre call.input := by
  induction inputs generalizing s with
  | nil => exact ⟨s, [], rfl, by simp⟩
  | cons i inputs ih =>
      obtain ⟨next, output, hfirst, hnext⟩ := hstep s i hs hguard.1
      obtain ⟨final, rest, hrest, hcalls⟩ :=
        ih hnext (hguard.2 next output hfirst)
      refine ⟨final, ⟨s, i, output⟩ :: rest, ?_, ?_⟩
      · exact run_cons_eq_ok.mpr ⟨next, output, rest, hfirst, hrest, rfl⟩
      · exact List.forall_mem_cons.mpr ⟨hguard.1, hcalls⟩

/-- What is taken in and not yet given out is pending: if every step keeps
this account, so does every run. -/
theorem run_balance
    {Inv : σ → Prop} {guard : σ → ι → Prop} {pending : σ → List α}
    {gain : σ → ι → List α} {spend : ω → List α}
    (hstep : ∀ s i next output, Inv s → guard s i →
      step s i = .ok (next, output) →
        Inv next ∧ spend output ++ pending next = pending s ++ gain s i)
    {s final : σ} {inputs : List ι} {calls : List (Call σ ι ω)}
    (hrun : run step s inputs = .ok (final, calls)) (hs : Inv s)
    (hguard : ∀ call ∈ calls, guard call.pre call.input) :
    calls.flatMap (fun call => spend call.output) ++ pending final =
      pending s ++ calls.flatMap (fun call => gain call.pre call.input) := by
  induction inputs generalizing s calls with
  | nil =>
      obtain ⟨rfl, rfl⟩ := run_nil_eq_ok.mp hrun
      simp
  | cons i inputs ih =>
      obtain ⟨next, output, rest, hfirst, hrest, rfl⟩ := run_cons_eq_ok.mp hrun
      have hsplit := List.forall_mem_cons.mp hguard
      have hnext := hstep s i next output hs hsplit.1 hfirst
      have htail := ih hrest hnext.1 hsplit.2
      calc
        (⟨s, i, output⟩ :: rest).flatMap (fun call => spend call.output) ++
            pending final =
            spend output ++
              (rest.flatMap (fun call => spend call.output) ++ pending final) := by
          rw [List.flatMap_cons, List.append_assoc]
        _ = spend output ++ pending next ++
              rest.flatMap (fun call => gain call.pre call.input) := by
          rw [htail, List.append_assoc]
        _ = pending s ++
              (⟨s, i, output⟩ :: rest).flatMap
                (fun call => gain call.pre call.input) := by
          rw [hnext.2, List.flatMap_cons, List.append_assoc]

/-! ## Two runs side by side -/

/-- Both fail alike, or both end with equal outputs and related states. -/
def Alike (R : σ → σ → Prop) : Except ε (σ × ω) → Except ε (σ × ω) → Prop
  | .ok r, .ok r' => r.2 = r'.2 ∧ R r.1 r'.1
  | .error e, .error e' => e = e'
  | _, _ => False

/-- If the steps of two runs are alike, the runs have the same outputs.  The
relation may bound how many steps are to follow. -/
theorem run_alike
    {R : ℕ → σ → σ → Prop} {same : ι → ι → Prop}
    (hstep : ∀ n s s' i i', same i i' → R (n + 1) s s' →
      Alike (R n) (step s i) (step s' i'))
    {s s' : σ} {inputs inputs' : List ι} (hsame : List.Forall₂ same inputs inputs')
    (hs : R inputs.length s s') :
    (run step s inputs).map (fun r => r.2.map (·.output)) =
      (run step s' inputs').map (fun r => r.2.map (·.output)) := by
  induction hsame generalizing s s' with
  | nil => rfl
  | @cons i i' inputs inputs' hi hrest ih =>
      have hfirst := hstep _ s s' i i' hi hs
      unfold run
      cases hx : step s i with
      | error e =>
          cases hy : step s' i' with
          | error e' =>
              rw [hx, hy] at hfirst
              exact congrArg Except.error hfirst
          | ok r' =>
              rw [hx, hy] at hfirst
              exact hfirst.elim
      | ok r =>
          cases hy : step s' i' with
          | error e' =>
              rw [hx, hy] at hfirst
              exact hfirst.elim
          | ok r' =>
              rw [hx, hy] at hfirst
              have htail := ih hfirst.2
              simp only [bind, Except.bind, pure, Except.pure]
              cases hrun : run step r.1 inputs with
              | error e =>
                  cases hrun' : run step r'.1 inputs' with
                  | error e' =>
                      rw [hrun, hrun'] at htail
                      exact htail
                  | ok t' =>
                      rw [hrun, hrun'] at htail
                      cases htail
              | ok t =>
                  cases hrun' : run step r'.1 inputs' with
                  | error e' =>
                      rw [hrun, hrun'] at htail
                      cases htail
                  | ok t' =>
                      rw [hrun, hrun'] at htail
                      have houtputs : t.2.map (·.output) = t'.2.map (·.output) :=
                        Except.ok.inj htail
                      change Except.ok (r.2 :: t.2.map (·.output)) =
                        Except.ok (r'.2 :: t'.2.map (·.output))
                      rw [hfirst.1, houtputs]

inductive Reachable (step : σ → ι → Except ε (σ × ω)) (start : σ) : σ → Prop
  | start : Reachable step start start
  | next {s s' : σ} {i : ι} {o : ω} :
      Reachable step start s → step s i = .ok (s', o) →
      Reachable step start s'

theorem Reachable.invariant
    {Inv : σ → Prop} {start s : σ} (hreach : Reachable step start s)
    (hstart : Inv start)
    (hstep : ∀ s i next output, Inv s → step s i = .ok (next, output) →
      Inv next) :
    Inv s := by
  induction hreach with
  | start => exact hstart
  | next _ hnext ih => exact hstep _ _ _ _ ih hnext

theorem Reachable.run
    {start s final : σ} {inputs : List ι} {calls : List (Call σ ι ω)}
    (hreach : Reachable step start s)
    (hrun : Execution.run step s inputs = .ok (final, calls)) :
    Reachable step start final ∧
      ∀ call ∈ calls, Reachable step start call.pre := by
  have hstep : ∀ s i next output, Reachable step start s → True →
      step s i = .ok (next, output) → Reachable step start next := by
    intro s i next output hs _ hnext
    exact hs.next hnext
  exact run_invariant hstep hrun hreach (fun _ _ => trivial)

/-! ## Simulation by a total specification -/

def specRun (spec : τ → ι → τ × ω) : τ → List ι → τ × List ω
  | t, [] => (t, [])
  | t, i :: inputs =>
      let (next, output) := spec t i
      let (final, outputs) := specRun spec next inputs
      (final, output :: outputs)

/-- If every guarded step is matched by the specification, with equal
outputs, then so is every guarded run. -/
theorem run_simulates
    {spec : τ → ι → τ × ω} {R : σ → τ → Prop} {guard : σ → ι → Prop}
    (hstep : ∀ s t i next output, R s t → guard s i →
      step s i = .ok (next, output) →
        (spec t i).2 = output ∧ R next (spec t i).1)
    {s final : σ} {t : τ} {inputs : List ι} {calls : List (Call σ ι ω)}
    (hrun : run step s inputs = .ok (final, calls)) (hs : R s t)
    (hguard : ∀ call ∈ calls, guard call.pre call.input) :
    R final (specRun spec t inputs).1 ∧
      calls.map (·.output) = (specRun spec t inputs).2 := by
  induction inputs generalizing s t calls with
  | nil =>
      rcases run_nil_eq_ok.mp hrun with ⟨rfl, rfl⟩
      exact ⟨hs, rfl⟩
  | cons i inputs ih =>
      rcases run_cons_eq_ok.mp hrun with
        ⟨next, output, rest, hfirst, hrest, rfl⟩
      have hsplit := List.forall_mem_cons.mp hguard
      have hmatch := hstep s t i next output hs hsplit.1 hfirst
      have htail := ih hrest hmatch.2 hsplit.2
      refine ⟨htail.1, ?_⟩
      rw [List.map_cons, htail.2, ← hmatch.1]
      rfl

end Execution
