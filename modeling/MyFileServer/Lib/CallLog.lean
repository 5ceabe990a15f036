import Mathlib.Tactic

/-!
# Computations that make calls

A computation that talks to its environment makes calls one after another and
may fail in between; the calls made before the failure stay made.  An answer
of the environment may depend on every call made so far, so the computation
is given the calls that came before it and returns the ones that it adds.
`Emits` says that every added call has a property, and its rules follow the
computation step by step in both directions.
-/

namespace CallLog

structure Outcome (ω ε α : Type) where
  result : Except ε α
  calls : List ω
  deriving DecidableEq

/-- From the calls made so far to the result and the new calls. -/
def Traced (ω ε α : Type) : Type := List ω → Outcome ω ε α

variable {ω ε α β γ : Type}

def lift (x : Except ε α) : Traced ω ε α :=
  fun _ => ⟨x, []⟩

/-- The calls made so far. -/
def history : Traced ω ε (List ω) :=
  fun before => ⟨.ok before, []⟩

/-- One call, recorded with its answer. -/
def perform (answer : List ω → α) (record : α → ω) : Traced ω ε α :=
  fun before => ⟨.ok (answer before), [record (answer before)]⟩

def bind (x : Traced ω ε α) (f : α → Traced ω ε β) : Traced ω ε β :=
  fun before =>
    match x before with
    | ⟨.ok a, calls⟩ =>
        let next := f a (before ++ calls)
        ⟨next.result, calls ++ next.calls⟩
    | ⟨.error e, calls⟩ => ⟨.error e, calls⟩

instance : Monad (Traced ω ε) where
  pure a := lift (.ok a)
  bind := bind

@[simp] theorem pure_apply (a : α) (before : List ω) :
    (pure a : Traced ω ε α) before = ⟨.ok a, []⟩ := rfl

@[simp] theorem lift_apply (x : Except ε α) (before : List ω) :
    lift x before = ⟨x, []⟩ := rfl

theorem bind_of_ok {x : Traced ω ε α} {f : α → Traced ω ε β} {a : α}
    {before calls : List ω} (hx : x before = ⟨.ok a, calls⟩) :
    (x >>= f) before =
      ⟨(f a (before ++ calls)).result, calls ++ (f a (before ++ calls)).calls⟩ := by
  change bind x f before = _
  unfold bind
  rw [hx]

theorem bind_of_error {x : Traced ω ε α} {f : α → Traced ω ε β} {e : ε}
    {before calls : List ω} (hx : x before = ⟨.error e, calls⟩) :
    (x >>= f) before = ⟨.error e, calls⟩ := by
  change bind x f before = _
  unfold bind
  rw [hx]

theorem bind_result_eq_ok {x : Traced ω ε α} {f : α → Traced ω ε β}
    {before : List ω} {b : β} :
    ((x >>= f) before).result = .ok b ↔
      ∃ a, (x before).result = .ok a ∧
        (f a (before ++ (x before).calls)).result = .ok b := by
  cases hx : x before with
  | mk result calls =>
      cases result with
      | ok a =>
          rw [bind_of_ok hx]
          simp
      | error e =>
          rw [bind_of_error hx]
          simp

theorem lift_bind_result_eq_ok {x : Except ε α} {f : α → Traced ω ε β}
    {before : List ω} {b : β} :
    (((lift x : Traced ω ε α) >>= f) before).result = .ok b ↔
      ∃ a, x = .ok a ∧ (f a before).result = .ok b := by
  rw [bind_result_eq_ok]
  simp

theorem lift_ok_bind (a : α) (f : α → Traced ω ε β) :
    ((lift (.ok a) : Traced ω ε α) >>= f) = f a := by
  funext before
  rw [bind_of_ok (lift_apply _ before), List.append_nil]
  rfl

theorem history_bind {f : List ω → Traced ω ε β} {before : List ω} :
    (history >>= f) before = f before before := by
  have hcall : (history : Traced ω ε (List ω)) before = ⟨.ok before, []⟩ := rfl
  rw [bind_of_ok hcall, List.append_nil]
  rfl

theorem perform_bind {answer : List ω → α} {record : α → ω} {f : α → Traced ω ε β}
    {before : List ω} :
    (perform answer record >>= f) before =
      ⟨(f (answer before) (before ++ [record (answer before)])).result,
        record (answer before) ::
          (f (answer before) (before ++ [record (answer before)])).calls⟩ := by
  have hcall : (perform answer record : Traced ω ε α) before =
      ⟨.ok (answer before), [record (answer before)]⟩ := rfl
  rw [bind_of_ok hcall]
  rfl

theorem perform_bind_result {answer : List ω → α} {record : α → ω}
    {f : α → Traced ω ε β} {before : List ω} :
    ((perform answer record >>= f) before).result =
      (f (answer before) (before ++ [record (answer before)])).result := by
  rw [perform_bind]

theorem bind_pure_apply {x : Traced ω ε α} {f : α → β} {before : List ω} :
    (x >>= fun a => pure (f a)) before = ⟨f <$> (x before).result, (x before).calls⟩ := by
  cases hx : x before with
  | mk result calls =>
      cases result with
      | ok a =>
          rw [bind_of_ok hx, pure_apply, List.append_nil]
          rfl
      | error e =>
          rw [bind_of_error hx]
          rfl

theorem bind_pure_calls {x : Traced ω ε α} {f : α → β} {before : List ω} :
    ((x >>= fun a => pure (f a)) before).calls = (x before).calls := by
  rw [bind_pure_apply]

theorem id_map_traced (x : Traced ω ε α) : id <$> x = x := by
  funext before
  cases hx : x before with
  | mk result calls =>
      cases result with
      | ok a => exact (bind_of_ok hx).trans (by simp)
      | error e => exact bind_of_error hx

theorem pure_bind_traced (a : α) (f : α → Traced ω ε β) : pure a >>= f = f a :=
  lift_ok_bind a f

theorem bind_assoc_traced (x : Traced ω ε α) (f : α → Traced ω ε β)
    (g : β → Traced ω ε γ) : x >>= f >>= g = x >>= fun a => f a >>= g := by
  funext before
  cases hx : x before with
  | mk result calls =>
      cases result with
      | error e => rw [bind_of_error hx, bind_of_error (bind_of_error hx)]
      | ok a =>
          rw [bind_of_ok hx]
          cases hf : f a (before ++ calls) with
          | mk result' calls' =>
              have hxf : (x >>= f) before = ⟨result', calls ++ calls'⟩ := by
                rw [bind_of_ok hx, hf]
              cases result' with
              | error e => rw [bind_of_error hxf, bind_of_error hf]
              | ok b =>
                  rw [bind_of_ok hxf, bind_of_ok hf]
                  simp

instance : LawfulMonad (Traced ω ε) :=
  LawfulMonad.mk' _ id_map_traced pure_bind_traced bind_assoc_traced

/-! ## What is true of every result -/

/-- Whenever the computation returns, the result has the property. -/
def Returning (Q : α → Prop) (x : Traced ω ε α) : Prop :=
  ∀ before a, (x before).result = .ok a → Q a

theorem returning_pure {Q : α → Prop} {a : α} (ha : Q a) :
    Returning Q (pure a : Traced ω ε α) := by
  intro before b hresult
  rw [← Except.ok.inj hresult]
  exact ha

theorem Returning.bind {R : α → Prop} {Q : β → Prop} {x : Traced ω ε α}
    {f : α → Traced ω ε β} (hx : Returning R x)
    (hf : ∀ a, R a → Returning Q (f a)) : Returning Q (x >>= f) := by
  intro before b hresult
  obtain ⟨a, ha, hb⟩ := bind_result_eq_ok.mp hresult
  exact hf a (hx before a ha) _ b hb

/-- The result of the last step alone decides. -/
theorem returning_bind {Q : β → Prop} {x : Traced ω ε α} {f : α → Traced ω ε β}
    (hf : ∀ a, Returning Q (f a)) : Returning Q (x >>= f) := by
  have hx : Returning (fun _ => True) x := fun _ _ _ => trivial
  exact hx.bind fun a _ => hf a

/-! ## What is true of every call -/

/-- Every call that the computation makes from there has the property. -/
def Emits (P : ω → Prop) (x : Traced ω ε α) (before : List ω) : Prop :=
  ∀ call ∈ (x before).calls, P call

variable {P : ω → Prop} {before : List ω}

@[simp] theorem emits_pure (a : α) :
    Emits P (pure a : Traced ω ε α) before ↔ True := by
  simp [Emits]

@[simp] theorem emits_lift (x : Except ε α) :
    Emits P (lift x : Traced ω ε α) before ↔ True := by
  simp [Emits]

@[simp] theorem emits_history :
    Emits P (history : Traced ω ε (List ω)) before ↔ True := by
  simp [Emits, history]

@[simp] theorem emits_perform (answer : List ω → α) (record : α → ω) :
    Emits P (perform answer record : Traced ω ε α) before ↔
      P (record (answer before)) := by
  simp [Emits, perform]

theorem emits_bind {x : Traced ω ε α} {f : α → Traced ω ε β} :
    Emits P (x >>= f) before ↔
      Emits P x before ∧ ∀ a, (x before).result = .ok a →
        Emits P (f a) (before ++ (x before).calls) := by
  unfold Emits
  cases hx : x before with
  | mk result calls =>
      cases result with
      | ok a =>
          rw [bind_of_ok hx]
          simp [or_imp, forall_and]
      | error e =>
          rw [bind_of_error hx]
          simp

@[simp] theorem emits_map {x : Traced ω ε α} {f : α → β} :
    Emits P (f <$> x) before ↔ Emits P x before := by
  rw [← bind_pure_comp, emits_bind]
  simp

theorem emits_bind_pure {x : Traced ω ε α} {f : α → β} :
    Emits P (x >>= fun a => pure (f a)) before ↔ Emits P x before := by
  rw [bind_pure_comp, emits_map]

theorem Emits.mono {Q : ω → Prop} {x : Traced ω ε α} (hx : Emits P x before)
    (himp : ∀ call, P call → Q call) : Emits Q x before :=
  fun call hcall => himp call (hx call hcall)

theorem emits_lift_bind {x : Except ε α} {f : α → Traced ω ε β} :
    Emits P ((lift x : Traced ω ε α) >>= f) before ↔
      ∀ a, x = .ok a → Emits P (f a) before := by
  rw [emits_bind]
  simp

theorem emits_history_bind {f : List ω → Traced ω ε β} :
    Emits P (history >>= f) before ↔ Emits P (f before) before := by
  rw [emits_bind]
  simp [history]

theorem emits_perform_bind {answer : List ω → α} {record : α → ω}
    {f : α → Traced ω ε β} :
    Emits P (perform answer record >>= f) before ↔
      P (record (answer before)) ∧
        Emits P (f (answer before)) (before ++ [record (answer before)]) := by
  rw [emits_bind]
  simp [perform]

end CallLog
