import Mathlib.Tactic

/-!
# The lines of a text

A text is read line by line: a line ends in front of the next end-of-line
element, and what follows the last of them is a line only when it is not
empty.
-/

namespace TextLines

variable {α : Type*} {eol : α}

/-- The text of lines, each with its end. -/
def unlines (eol : α) (lines : List (List α)) : List α :=
  lines.flatMap (· ++ [eol])

@[simp] theorem unlines_nil : unlines eol [] = [] := rfl

@[simp] theorem unlines_cons (line : List α) (lines : List (List α)) :
    unlines eol (line :: lines) = line ++ [eol] ++ unlines eol lines := rfl

variable [DecidableEq α]

def linesOf (eol : α) (text : List α) : List (List α) :=
  let pieces := text.splitOn eol
  if pieces.getLast? = some [] then pieces.dropLast else pieces

theorem linesOf_cons {line : List α} (hline : eol ∉ line) (rest : List α) :
    linesOf eol (line ++ eol :: rest) = line :: linesOf eol rest := by
  unfold linesOf
  rw [List.splitOn_append_cons_self_of_not_mem hline]
  have hne := List.splitOn_ne_nil eol rest
  generalize rest.splitOn eol = pieces at hne ⊢
  obtain ⟨piece, pieces, rfl⟩ := List.exists_cons_of_ne_nil hne
  simp only [List.getLast?_cons_cons, List.dropLast_cons_cons]
  split <;> rfl

theorem linesOf_of_notMem {text : List α} (htext : eol ∉ text) :
    linesOf eol text = if text = [] then [] else [text] := by
  unfold linesOf
  rw [List.splitOn_eq_singleton htext]
  simp

/-- Line by line. -/
@[elab_as_elim] theorem lines_induction (eol : α) {P : List α → Prop}
    (last : ∀ text, eol ∉ text → P text)
    (line : ∀ line rest, eol ∉ line → P rest → P (line ++ eol :: rest))
    (text : List α) : P text := by
  induction hlength : text.length using Nat.strong_induction_on generalizing text with
  | _ n ih =>
      by_cases hmem : eol ∈ text
      · obtain ⟨front, rest, rfl, hfront⟩ := List.eq_append_cons_of_mem hmem
        apply line front rest hfront
        refine ih rest.length ?_ rest rfl
        rw [← hlength]
        simp
        omega
      · exact last text hmem

end TextLines
