import Mathlib.Data.List.Lex
import Mathlib.Data.List.Forall2
import Mathlib.Tactic

/-!
# Lists in lexicographic order

Texts of the same length are compared as their parts are: a text that is put
together from fields of fixed widths sorts as the list of the fields does.
-/

namespace LexOrder

variable {α β : Type*} [LinearOrder α] [LinearOrder β]

theorem append_lt_append_of_length_eq {x y : List α} (hlength : x.length = y.length)
    (h : x < y) (u v : List α) : x ++ u < y ++ v := by
  induction x generalizing y with
  | nil =>
      rw [List.length_nil, eq_comm, List.length_eq_zero_iff] at hlength
      rw [hlength] at h
      exact absurd h (lt_irrefl _)
  | cons a x ih =>
      cases y with
      | nil => simp at hlength
      | cons b y =>
          rw [List.cons_append, List.cons_append, List.cons_lt_cons_iff]
          rcases List.cons_lt_cons_iff.mp h with hlt | ⟨heq, hlt⟩
          · exact .inl hlt
          · exact .inr ⟨heq, ih (Nat.succ.inj hlength) hlt⟩

/-- The text of a list of fields, one encoding for each field. -/
def render (encodings : List (β → List α)) (fields : List β) : List α :=
  (List.zipWith (fun encoding field => encoding field) encodings fields).flatten

/-- The encoding of `field` and that of `field'` have one length, and the
encoding of the lesser one is less. -/
structure Compares (encoding : β → List α) (field field' : β) : Prop where
  length_eq : (encoding field).length = (encoding field').length
  lt : field < field' → encoding field < encoding field'

/-- The encodings compare the fields one by one. -/
inductive Comparable : List (β → List α) → List β → List β → Prop
  | nil : Comparable [] [] []
  | cons {encoding : β → List α} {encodings : List (β → List α)} {field field' : β}
      {fields fields' : List β} :
      Compares encoding field field' → Comparable encodings fields fields' →
      Comparable (encoding :: encodings) (field :: fields) (field' :: fields')

theorem render_lt_render {encodings : List (β → List α)} {fields fields' : List β}
    (hcomparable : Comparable encodings fields fields') (hlt : fields < fields') :
    render encodings fields < render encodings fields' := by
  induction hcomparable with
  | nil => exact absurd hlt (lt_irrefl _)
  | cons hfirst _ ih =>
      rename_i encoding encodings field field' fields fields' _
      change encoding field ++ render encodings fields < encoding field' ++ render encodings fields'
      rcases List.cons_lt_cons_iff.mp hlt with hfield | ⟨rfl, hrest⟩
      · exact append_lt_append_of_length_eq hfirst.length_eq (hfirst.lt hfield) _ _
      · exact List.append_left_lt (ih hrest)

section Affixes

variable {encoding : β → List α} {field field' : β}

theorem Compares.append (h : Compares encoding field field') (back : List α) :
    Compares (fun field => encoding field ++ back) field field' where
  length_eq := by
    rw [List.length_append, List.length_append, h.length_eq]
  lt := fun hlt => append_lt_append_of_length_eq h.length_eq (h.lt hlt) back back

end Affixes

end LexOrder
