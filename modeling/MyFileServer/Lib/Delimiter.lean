import Mathlib.Data.List.Infix
import Mathlib.Tactic

/-!
# Texts cut at a delimiter

A stream protocol cuts its input at every occurrence of a delimiter.  This
file gives the search for the first occurrence and the facts that make the
cut unambiguous.  The delimiter is any non-empty word that cannot overlap
itself; nothing below depends on which word it is.

A block is a run of lines accepted by a predicate, closed by the first line
that the predicate refuses.  Every text is either an open block or a closed
one, and the decomposition is unique.
-/

namespace Delimiter

variable {α : Type*}

def Free (d text : List α) : Prop :=
  ¬ d <:+: text

/-- No proper end of the word is also a beginning of it, so two occurrences
never overlap. -/
def Unbordered (d : List α) : Prop :=
  ∀ front back, d = front ++ back → front ≠ [] → back ≠ [] → ¬ back <+: d

theorem unbordered_of_head_notMem {a : α} {word : List α} (ha : a ∉ word) :
    Unbordered (a :: word) := by
  intro front back hsplit hfront hback hprefix
  match front, back with
  | [], _ => exact hfront rfl
  | _, [] => exact hback rfl
  | _ :: front, b :: back =>
      have hword : word = front ++ b :: back := (List.cons.inj hsplit).2
      have hb : b = a := (List.cons_prefix_cons.mp hprefix).1
      apply ha
      rw [hword, ← hb]
      simp

theorem unbordered_pair {a b : α} (hne : a ≠ b) : Unbordered [a, b] :=
  unbordered_of_head_notMem (by simpa using hne)

theorem free_nil {d : List α} (hd : d ≠ []) : Free d [] := by
  simpa [Free] using hd

theorem free_of_notMem {d text : List α} {a : α}
    (hd : a ∈ d) (htext : a ∉ text) : Free d text :=
  fun hpart => htext (hpart.subset hd)

/-- An element that does not start the delimiter adds no occurrence. -/
theorem Free.cons {d text : List α} {a : α} (hfree : Free d text)
    (ha : d.head? ≠ some a) : Free d (a :: text) := by
  intro hoccurs
  rcases List.infix_cons_iff.mp hoccurs with hprefix | hinside
  · cases d with
    | nil => exact hfree (List.nil_infix)
    | cons b d =>
        apply ha
        rw [(List.cons_prefix_cons.mp hprefix).1]
        rfl
  · exact hfree hinside

theorem not_free_append_delimiter (d line rest : List α) :
    ¬ Free d (line ++ d ++ rest) :=
  fun hfree => hfree ⟨line, rest, rfl⟩

section Search

variable [DecidableEq α]

/-- Offset of the first occurrence of the delimiter, and the length of the
text when there is none. -/
def search (d : List α) : List α → ℕ
  | [] => 0
  | a :: text => if d <+: a :: text then 0 else search d text + 1

theorem search_le_length (d text : List α) : search d text ≤ text.length := by
  induction text with
  | nil => simp [search]
  | cons a text ih =>
      simp only [search, List.length_cons]
      split <;> omega

theorem search_eq_length_iff {d : List α} (hd : d ≠ []) (text : List α) :
    search d text = text.length ↔ Free d text := by
  induction text with
  | nil => simp [search, free_nil hd]
  | cons a text ih =>
      simp only [search, List.length_cons]
      split
      next hprefix =>
        exact ⟨fun h => by omega, fun hfree => absurd hprefix.isInfix hfree⟩
      next hprefix =>
        rw [Nat.add_right_cancel_iff, ih, Free, Free, List.infix_cons_iff]
        tauto

theorem delimiter_prefix_drop_search {d text : List α}
    (hfound : search d text ≠ text.length) :
    d <+: text.drop (search d text) := by
  induction text with
  | nil => simp [search] at hfound
  | cons a text ih =>
      simp only [search, List.length_cons] at hfound ⊢
      split
      next hprefix => simpa using hprefix
      next hprefix =>
        rw [if_neg hprefix] at hfound
        simpa using ih (by omega)

theorem free_take_search {d : List α} (hd : d ≠ []) (text : List α) :
    Free d (text.take (search d text)) := by
  induction text with
  | nil => simpa [search] using free_nil hd
  | cons a text ih =>
      simp only [search]
      split
      next => simpa using free_nil hd
      next hprefix =>
        rw [List.take_succ_cons, Free, List.infix_cons_iff]
        rintro (hhead | htail)
        · apply hprefix
          exact hhead.trans
            (List.prefix_cons_inj a |>.mpr (List.take_prefix _ _))
        · exact ih htail

end Search

theorem length_le_of_occurrence
    {d line rest before after : List α}
    (hd : Unbordered d) (hline : Free d line)
    (heq : line ++ d ++ rest = before ++ d ++ after) :
    line.length ≤ before.length := by
  by_contra hlt
  have hbeforePrefix : before <+: line ++ d ++ rest := by
    rw [heq, List.append_assoc]
    exact List.prefix_append before (d ++ after)
  have hlinePrefix : line <+: line ++ d ++ rest := by
    rw [List.append_assoc]
    exact List.prefix_append line (d ++ rest)
  have hbefore : before <+: line :=
    List.prefix_of_prefix_length_le hbeforePrefix hlinePrefix (by omega)
  rcases hbefore with ⟨part, rfl⟩
  have hpart : part ++ (d ++ rest) = d ++ after := by
    simpa [List.append_assoc] using heq
  have hpartNe : part ≠ [] := by
    rintro rfl
    simp at hlt
  rcases List.append_eq_append_iff.mp hpart with
    ⟨back, hsplit, htail⟩ | ⟨more, rfl, _⟩
  · have hbackNe : back ≠ [] := by
      rintro rfl
      apply hline
      exact ⟨before, [], by simp [hsplit]⟩
    apply hd part back hsplit hpartNe hbackNe
    have hback : back <+: d ++ rest := htail ▸ List.prefix_append back after
    exact List.prefix_of_prefix_length_le hback (List.prefix_append d rest)
      (by simp [hsplit])
  · exact hline ⟨before, more, by simp [List.append_assoc]⟩

theorem line_cancel
    {d line₁ line₂ rest₁ rest₂ : List α}
    (hd : Unbordered d) (h₁ : Free d line₁) (h₂ : Free d line₂)
    (heq : line₁ ++ d ++ rest₁ = line₂ ++ d ++ rest₂) :
    line₁ = line₂ ∧ rest₁ = rest₂ := by
  have hlength : line₁.length = line₂.length :=
    le_antisymm (length_le_of_occurrence hd h₁ heq)
      (length_le_of_occurrence hd h₂ heq.symm)
  rw [List.append_assoc, List.append_assoc] at heq
  have hsplit := List.append_inj heq hlength
  exact ⟨hsplit.1, List.append_cancel_left hsplit.2⟩

theorem search_le_of_occurrence [DecidableEq α] {d : List α} (hne : d ≠ [])
    (before after : List α) : search d (before ++ d ++ after) ≤ before.length := by
  induction before with
  | nil =>
      cases d with
      | nil => exact absurd rfl hne
      | cons a d =>
          rw [List.nil_append, List.cons_append, search, if_pos ⟨after, rfl⟩]
          simp
  | cons a before ih =>
      simp only [List.cons_append, search, List.length_cons]
      split <;> omega

theorem search_line [DecidableEq α] {d line : List α}
    (hne : d ≠ []) (hd : Unbordered d) (hline : Free d line) (rest : List α) :
    search d (line ++ d ++ rest) = line.length := by
  have hfound :
      search d (line ++ d ++ rest) ≠ (line ++ d ++ rest).length := by
    rw [Ne, search_eq_length_iff hne]
    exact not_free_append_delimiter d line rest
  rcases delimiter_prefix_drop_search hfound with ⟨after, hafter⟩
  have hsplit := List.take_append_drop
    (search d (line ++ d ++ rest)) (line ++ d ++ rest)
  rw [← hafter, ← List.append_assoc] at hsplit
  have hfree := free_take_search hne (line ++ d ++ rest)
  have hlength :=
    congrArg List.length (line_cancel hd hfree hline hsplit).1
  rw [List.length_take] at hlength
  have hle := search_le_length d (line ++ d ++ rest)
  omega

theorem prefix_of_notMem {d line rest : List α} {a : α} (ha : a ∉ d)
    (hbegins : d <+: line ++ a :: rest) : d <+: line := by
  rcases List.prefix_or_prefix_of_prefix hbegins (List.prefix_append line (a :: rest)) with
    hinside | hlonger
  · exact hinside
  · obtain ⟨more, rfl⟩ := hlonger
    rw [List.prefix_append_right_inj] at hbegins
    cases more with
    | nil => rw [List.append_nil]
    | cons b more =>
        rw [(List.cons_prefix_cons.mp hbegins).1] at ha
        exact absurd (List.mem_append_right line List.mem_cons_self) ha

/-- The first occurrence behind an element that the delimiter does not have. -/
theorem search_behind [DecidableEq α] {d line : List α} {a : α} (hne : d ≠ [])
    (ha : a ∉ d) (hline : Free d line) (rest : List α) :
    search d (line ++ a :: (d ++ rest)) = line.length + 1 := by
  induction line with
  | nil =>
      have hfirst : ¬ d <+: a :: (d ++ rest) := by
        intro hbegins
        have hnil : d <+: [] := prefix_of_notMem ha hbegins
        exact hne (List.prefix_nil.mp hnil)
      have hnext := search_le_of_occurrence hne [] rest
      rw [List.nil_append, search, if_neg hfirst]
      simpa using hnext
  | cons b line ih =>
      have hfirst : ¬ d <+: b :: (line ++ a :: (d ++ rest)) := by
        intro hbegins
        have hinside : d <+: b :: line := prefix_of_notMem ha hbegins
        exact hline hinside.isInfix
      have hlater : Free d line := fun hoccurs => hline (List.infix_cons hoccurs)
      rw [List.cons_append, search, if_neg hfirst, ih hlater, List.length_cons]

theorem free_or_line [DecidableEq α] {d : List α} (hne : d ≠ [])
    (text : List α) :
    Free d text ∨
      ∃ line rest, text = line ++ d ++ rest ∧ Free d line := by
  by_cases hfree : Free d text
  · exact .inl hfree
  · right
    have hfound : search d text ≠ text.length := by
      rwa [Ne, search_eq_length_iff hne]
    rcases delimiter_prefix_drop_search hfound with ⟨rest, hrest⟩
    refine ⟨text.take (search d text), rest, ?_, free_take_search hne text⟩
    rw [List.append_assoc, hrest, List.take_append_drop]

/-! ## Blocks of lines -/

/-- The lines as they stand in a text, each followed by the delimiter. -/
def frame (d : List α) (lines : List (List α)) : List α :=
  lines.flatMap (· ++ d)

@[simp] theorem frame_nil (d : List α) : frame d [] = [] := rfl

@[simp] theorem frame_cons (d line : List α) (lines : List (List α)) :
    frame d (line :: lines) = line ++ d ++ frame d lines := by
  simp [frame, List.append_assoc]

theorem length_mul_le_length_frame (d : List α) (lines : List (List α)) :
    lines.length * d.length ≤ (frame d lines).length := by
  induction lines with
  | nil => simp
  | cons line lines ih =>
      rw [frame_cons, List.length_append, List.length_append,
        List.length_cons, Nat.succ_mul]
      omega

/-- Complete lines that `keep` accepts, then an unfinished line. -/
structure OpenBlock (d : List α) (keep : List α → Prop)
    (text : List α) (lines : List (List α)) (tail : List α) : Prop where
  text_eq : text = frame d lines ++ tail
  lines_free : ∀ line ∈ lines, Free d line
  lines_keep : ∀ line ∈ lines, keep line
  tail_free : Free d tail

/-- Complete lines that `keep` accepts, the first line that it refuses, and
what follows that line. -/
structure ClosedBlock (d : List α) (keep : List α → Prop)
    (text : List α) (lines : List (List α)) (last rest : List α) : Prop where
  text_eq : text = frame d lines ++ last ++ d ++ rest
  lines_free : ∀ line ∈ lines, Free d line
  lines_keep : ∀ line ∈ lines, keep line
  last_free : Free d last
  last_refused : ¬ keep last

section Block

variable {d : List α} {keep : List α → Prop}

theorem ClosedBlock.text_lines {text last rest : List α} {lines : List (List α)}
    (hblock : ClosedBlock d keep text lines last rest) :
    text = frame d lines ++ (last ++ d ++ rest) := by
  rw [hblock.text_eq]
  simp only [List.append_assoc]

theorem OpenBlock.cons {text line tail : List α} {lines : List (List α)}
    (hblock : OpenBlock d keep text lines tail)
    (hfree : Free d line) (hkeep : keep line) :
    OpenBlock d keep (line ++ d ++ text) (line :: lines) tail where
  text_eq := by simp [hblock.text_eq, List.append_assoc]
  lines_free := List.forall_mem_cons.mpr ⟨hfree, hblock.lines_free⟩
  lines_keep := List.forall_mem_cons.mpr ⟨hkeep, hblock.lines_keep⟩
  tail_free := hblock.tail_free

theorem ClosedBlock.cons {text line last rest : List α}
    {lines : List (List α)}
    (hblock : ClosedBlock d keep text lines last rest)
    (hfree : Free d line) (hkeep : keep line) :
    ClosedBlock d keep (line ++ d ++ text) (line :: lines) last rest where
  text_eq := by simp [hblock.text_eq, List.append_assoc]
  lines_free := List.forall_mem_cons.mpr ⟨hfree, hblock.lines_free⟩
  lines_keep := List.forall_mem_cons.mpr ⟨hkeep, hblock.lines_keep⟩
  last_free := hblock.last_free
  last_refused := hblock.last_refused

theorem OpenBlock.tail {text line rest tail : List α} {lines : List (List α)}
    (hblock : OpenBlock d keep text (line :: lines) tail)
    (hrest : frame d lines ++ tail = rest) :
    OpenBlock d keep rest lines tail where
  text_eq := hrest.symm
  lines_free := fun line hmem => hblock.lines_free line (by simp [hmem])
  lines_keep := fun line hmem => hblock.lines_keep line (by simp [hmem])
  tail_free := hblock.tail_free

theorem ClosedBlock.tail {text line last rest more : List α}
    {lines : List (List α)}
    (hblock : ClosedBlock d keep text (line :: lines) last rest)
    (hmore : frame d lines ++ last ++ d ++ rest = more) :
    ClosedBlock d keep more lines last rest where
  text_eq := hmore.symm
  lines_free := fun line hmem => hblock.lines_free line (by simp [hmem])
  lines_keep := fun line hmem => hblock.lines_keep line (by simp [hmem])
  last_free := hblock.last_free
  last_refused := hblock.last_refused

theorem ClosedBlock.suffix {text last rest : List α} {lines : List (List α)}
    (hblock : ClosedBlock d keep text lines last rest) : rest <:+ text :=
  ⟨_, hblock.text_eq.symm⟩

theorem ClosedBlock.append {text last rest : List α} {lines : List (List α)}
    (hblock : ClosedBlock d keep text lines last rest) (more : List α) :
    ClosedBlock d keep (text ++ more) lines last (rest ++ more) where
  text_eq := by simp [hblock.text_eq, List.append_assoc]
  lines_free := hblock.lines_free
  lines_keep := hblock.lines_keep
  last_free := hblock.last_free
  last_refused := hblock.last_refused

theorem ClosedBlock.of_append {text last rest more : List α}
    {lines : List (List α)}
    (hblock : ClosedBlock d keep (text ++ more) lines last (rest ++ more)) :
    ClosedBlock d keep text lines last rest where
  text_eq := by
    have htext := hblock.text_eq
    rw [← List.append_assoc] at htext
    exact List.append_cancel_right htext
  lines_free := hblock.lines_free
  lines_keep := hblock.lines_keep
  last_free := hblock.last_free
  last_refused := hblock.last_refused

theorem open_or_closed [DecidableEq α] (hne : d ≠ []) (text : List α) :
    (∃ lines tail, OpenBlock d keep text lines tail) ∨
      ∃ lines last rest, ClosedBlock d keep text lines last rest := by
  -- each complete line shortens what is left to read
  induction hn : text.length using Nat.strong_induction_on generalizing text with
  | _ n ih =>
      rcases free_or_line hne text with hfree | ⟨line, rest, rfl, hline⟩
      · exact .inl ⟨[], text, by simp, by simp, by simp, hfree⟩
      by_cases hkeep : keep line
      · have hshort : rest.length < n := by
          have hpos := List.length_pos_iff.mpr hne
          simp only [List.length_append] at hn
          omega
        rcases ih rest.length hshort rest rfl with
          ⟨lines, tail, hopen⟩ | ⟨lines, last, rest', hclosed⟩
        · exact .inl ⟨line :: lines, tail, hopen.cons hline hkeep⟩
        · exact .inr ⟨line :: lines, last, rest', hclosed.cons hline hkeep⟩
      · exact .inr ⟨[], line, rest, by simp, by simp, by simp, hline, hkeep⟩

theorem ClosedBlock.unique (hd : Unbordered d)
    {text last₁ last₂ rest₁ rest₂ : List α} {lines₁ lines₂ : List (List α)}
    (h₁ : ClosedBlock d keep text lines₁ last₁ rest₁)
    (h₂ : ClosedBlock d keep text lines₂ last₂ rest₂) :
    lines₁ = lines₂ ∧ last₁ = last₂ ∧ rest₁ = rest₂ := by
  induction lines₁ generalizing text lines₂ with
  | nil =>
      cases lines₂ with
      | nil =>
          have htext : last₁ ++ d ++ rest₁ = last₂ ++ d ++ rest₂ := by
            simpa using h₁.text_eq.symm.trans h₂.text_eq
          have hlast := line_cancel hd h₁.last_free h₂.last_free htext
          exact ⟨rfl, hlast⟩
      | cons line₂ lines₂ =>
          have htext :
              last₁ ++ d ++ rest₁ =
                line₂ ++ d ++ (frame d lines₂ ++ last₂ ++ d ++ rest₂) := by
            simpa [List.append_assoc] using h₁.text_eq.symm.trans h₂.text_eq
          have hline :=
            (line_cancel hd h₁.last_free (h₂.lines_free line₂ (by simp)) htext).1
          have hkeep := h₂.lines_keep line₂ (by simp)
          rw [← hline] at hkeep
          exact absurd hkeep h₁.last_refused
  | cons line₁ lines₁ ih =>
      have hfree₁ := h₁.lines_free line₁ (by simp)
      cases lines₂ with
      | nil =>
          have htext :
              line₁ ++ d ++ (frame d lines₁ ++ last₁ ++ d ++ rest₁) =
                last₂ ++ d ++ rest₂ := by
            simpa [List.append_assoc] using h₁.text_eq.symm.trans h₂.text_eq
          have hline := (line_cancel hd hfree₁ h₂.last_free htext).1
          have hkeep := h₁.lines_keep line₁ (by simp)
          rw [hline] at hkeep
          exact absurd hkeep h₂.last_refused
      | cons line₂ lines₂ =>
          have htext :
              line₁ ++ d ++ (frame d lines₁ ++ last₁ ++ d ++ rest₁) =
                line₂ ++ d ++ (frame d lines₂ ++ last₂ ++ d ++ rest₂) := by
            simpa [List.append_assoc] using h₁.text_eq.symm.trans h₂.text_eq
          have hcut :=
            line_cancel hd hfree₁ (h₂.lines_free line₂ (by simp)) htext
          have hrest := ih (h₁.tail rfl) (h₂.tail hcut.2.symm)
          exact ⟨by rw [hcut.1, hrest.1], hrest.2⟩

theorem OpenBlock.not_closed (hd : Unbordered d)
    {text tail last rest : List α} {lines₁ lines₂ : List (List α)}
    (hopen : OpenBlock d keep text lines₁ tail)
    (hclosed : ClosedBlock d keep text lines₂ last rest) : False := by
  induction lines₁ generalizing text lines₂ with
  | nil =>
      apply hopen.tail_free
      have htext := hopen.text_eq.symm.trans hclosed.text_eq
      rw [frame_nil, List.nil_append] at htext
      rw [htext]
      exact ⟨frame d lines₂ ++ last, rest, rfl⟩
  | cons line₁ lines₁ ih =>
      have hfree₁ := hopen.lines_free line₁ (by simp)
      cases lines₂ with
      | nil =>
          have htext :
              line₁ ++ d ++ (frame d lines₁ ++ tail) = last ++ d ++ rest := by
            simpa [List.append_assoc] using
              hopen.text_eq.symm.trans hclosed.text_eq
          have hline := (line_cancel hd hfree₁ hclosed.last_free htext).1
          have hkeep := hopen.lines_keep line₁ (by simp)
          rw [hline] at hkeep
          exact hclosed.last_refused hkeep
      | cons line₂ lines₂ =>
          have htext :
              line₁ ++ d ++ (frame d lines₁ ++ tail) =
                line₂ ++ d ++ (frame d lines₂ ++ last ++ d ++ rest) := by
            simpa [List.append_assoc] using
              hopen.text_eq.symm.trans hclosed.text_eq
          have hcut :=
            line_cancel hd hfree₁ (hclosed.lines_free line₂ (by simp)) htext
          exact ih (hopen.tail rfl) (hclosed.tail hcut.2.symm)

/-- When later input closes an open block, the unfinished line and the later
input read as the rest of the block. -/
theorem OpenBlock.resume (hd : Unbordered d)
    {text tail more last rest : List α} {lines lines' : List (List α)}
    (hopen : OpenBlock d keep text lines tail)
    (hclosed : ClosedBlock d keep (text ++ more) lines' last rest) :
    ∃ lines'', lines' = lines ++ lines'' ∧
      ClosedBlock d keep (tail ++ more) lines'' last rest := by
  induction lines generalizing text lines' with
  | nil =>
      have htext : text = tail := by simpa using hopen.text_eq
      exact ⟨lines', rfl, htext ▸ hclosed⟩
  | cons line lines ih =>
      have hfree := hopen.lines_free line (by simp)
      have hkeep := hopen.lines_keep line (by simp)
      cases lines' with
      | nil =>
          have htext :
              line ++ d ++ (frame d lines ++ tail ++ more) =
                last ++ d ++ rest := by
            simpa [hopen.text_eq, List.append_assoc] using hclosed.text_eq
          have hline := (line_cancel hd hfree hclosed.last_free htext).1
          rw [hline] at hkeep
          exact absurd hkeep hclosed.last_refused
      | cons line' lines' =>
          have htext :
              line ++ d ++ (frame d lines ++ tail ++ more) =
                line' ++ d ++ (frame d lines' ++ last ++ d ++ rest) := by
            simpa [hopen.text_eq, List.append_assoc] using hclosed.text_eq
          have hcut :=
            line_cancel hd hfree (hclosed.lines_free line' (by simp)) htext
          rcases ih (hopen.tail rfl) (hclosed.tail hcut.2.symm) with
            ⟨lines'', hlines, hrest⟩
          exact ⟨lines'', by rw [hlines, hcut.1, List.cons_append], hrest⟩

end Block

end Delimiter
