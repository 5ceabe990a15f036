import MyFileServer.Http.FileListing
import MyFileServer.Lib.TextLines

/-!
# The page of a directory

The loop that reads the template up to its label has no other exit, so the
page is built exactly when the label is one of the lines of the template.  It
then stands for the rows of the entries.
-/

namespace MyFileServer

open Execution CallLog TextLines

/-! ## Lines of a stream -/

/-- The lines that `getline` still reads. -/
def Ifstream.lines (stream : Ifstream) : List Bytes :=
  if stream.good then linesOf (chr '\n') stream.rest else []

theorem getline_line {next : Bytes} (hnext : chr '\n' ∉ next) (rest line : Bytes) :
    getline ⟨next ++ chr '\n' :: rest, true⟩ line = (true, next, ⟨rest, true⟩) := by
  unfold getline
  simp only [if_true, takeWhile_ne_cons hnext]
  rw [if_neg (by simp)]
  simp

theorem getline_last {rest : Bytes} (hrest : chr '\n' ∉ rest) (line : Bytes) :
    getline ⟨rest, true⟩ line = (decide (rest ≠ []), rest, ⟨[], false⟩) := by
  unfold getline
  simp only [if_true, takeWhile_ne_self hrest]

theorem lines_line {next : Bytes} (hnext : chr '\n' ∉ next) (rest : Bytes) :
    Ifstream.lines ⟨next ++ chr '\n' :: rest, true⟩ = next :: Ifstream.lines ⟨rest, true⟩ :=
  linesOf_cons hnext rest

theorem lines_last {rest : Bytes} (hrest : chr '\n' ∉ rest) :
    Ifstream.lines ⟨rest, true⟩ = if rest = [] then [] else [rest] :=
  linesOf_of_notMem hrest

/-! ## The first loop -/

theorem beforeLabel_not_good {tempLine : Bytes} (hline : tempLine ≠ filelistLabel)
    (fuel : ℕ) (rest html : Bytes) :
    beforeLabel fuel ⟨rest, false⟩ tempLine html = .error .diverges := by
  induction fuel generalizing html with
  | zero => rfl
  | succ fuel ih =>
      unfold beforeLabel getline
      simp only [Bool.false_eq_true, if_false]
      rw [if_neg hline]
      exact ih _

/-- Without the label no number of rounds is enough. -/
theorem beforeLabel_diverges {rest : Bytes}
    (hlabel : filelistLabel ∉ Ifstream.lines ⟨rest, true⟩) (fuel : ℕ)
    (tempLine html : Bytes) :
    beforeLabel fuel ⟨rest, true⟩ tempLine html = .error .diverges := by
  induction rest using lines_induction (chr '\n') generalizing fuel tempLine html with
  | last rest hrest =>
      rw [lines_last hrest] at hlabel
      have hother : rest ≠ filelistLabel := by
        rintro rfl
        rw [if_neg (by decide)] at hlabel
        exact hlabel List.mem_cons_self
      cases fuel with
      | zero => rfl
      | succ fuel =>
          unfold beforeLabel
          rw [getline_last hrest]
          simp only [if_neg hother]
          exact beforeLabel_not_good hother fuel _ _
  | line line rest hline ih =>
      rw [lines_line hline, List.mem_cons, not_or] at hlabel
      cases fuel with
      | zero => rfl
      | succ fuel =>
          unfold beforeLabel
          rw [getline_line hline]
          simp only [if_neg (Ne.symm hlabel.1)]
          exact ih hlabel.2 fuel _ _

theorem beforeLabel_of_label {rest : Bytes}
    (hlabel : filelistLabel ∈ Ifstream.lines ⟨rest, true⟩) {fuel : ℕ}
    (hfuel : rest.length < fuel) (tempLine html : Bytes) :
    ∃ stream line, beforeLabel fuel ⟨rest, true⟩ tempLine html =
        .ok (stream, line, html ++ unlines (chr '\n')
          ((Ifstream.lines ⟨rest, true⟩).takeWhile (· ≠ filelistLabel))) ∧
      stream.lines =
        ((Ifstream.lines ⟨rest, true⟩).dropWhile (· ≠ filelistLabel)).tail := by
  induction rest using lines_induction (chr '\n') generalizing fuel tempLine html with
  | last rest hrest =>
      rw [lines_last hrest] at hlabel ⊢
      have hne : rest ≠ [] := by
        rintro rfl
        exact absurd hlabel (by simp)
      rw [if_neg hne] at hlabel ⊢
      obtain rfl := List.mem_singleton.mp hlabel
      obtain ⟨fuel, rfl⟩ := Nat.exists_eq_succ_of_ne_zero (by omega : fuel ≠ 0)
      refine ⟨⟨[], false⟩, filelistLabel, ?_, by simp [Ifstream.lines]⟩
      unfold beforeLabel
      rw [getline_last hrest]
      simp
      rfl
  | line line rest hline ih =>
      obtain ⟨fuel, rfl⟩ := Nat.exists_eq_succ_of_ne_zero (by omega : fuel ≠ 0)
      rw [lines_line hline] at hlabel ⊢
      unfold beforeLabel
      rw [getline_line hline]
      by_cases hhere : line = filelistLabel
      · refine ⟨⟨rest, true⟩, line, ?_, by simp [hhere]⟩
        simp [hhere]
        rfl
      · have hlater := (List.mem_cons.mp hlabel).resolve_left (Ne.symm hhere)
        have hshort : rest.length < fuel := by
          simp at hfuel
          omega
        obtain ⟨stream, last, hrun, hlines⟩ :=
          ih hlater hshort line (html ++ line ++ [chr '\n'])
        refine ⟨stream, last, ?_, ?_⟩
        · simp only [if_neg hhere]
          rw [hrun]
          simp [hhere]
        · rw [hlines]
          simp [hhere]

/-! ## The second loop -/

theorem afterLabel_not_good {fuel : ℕ} (hfuel : fuel ≠ 0) (rest tempLine html : Bytes) :
    afterLabel fuel ⟨rest, false⟩ tempLine html = .ok html := by
  obtain ⟨fuel, rfl⟩ := Nat.exists_eq_succ_of_ne_zero hfuel
  unfold afterLabel getline
  simp
  rfl

theorem afterLabel_good {rest : Bytes} {fuel : ℕ} (hfuel : rest.length < fuel)
    (tempLine html : Bytes) :
    afterLabel fuel ⟨rest, true⟩ tempLine html =
      .ok (html ++ unlines (chr '\n') (Ifstream.lines ⟨rest, true⟩)) := by
  induction rest using lines_induction (chr '\n') generalizing fuel tempLine html with
  | last rest hrest =>
      obtain ⟨fuel, rfl⟩ := Nat.exists_eq_succ_of_ne_zero (by omega : fuel ≠ 0)
      rw [lines_last hrest]
      unfold afterLabel
      rw [getline_last hrest]
      by_cases hempty : rest = []
      · simp [hempty]
        rfl
      · have hpos := List.length_pos_iff.mpr hempty
        simp only [hempty, ne_eq, not_false_eq_true, decide_true, if_true]
        rw [afterLabel_not_good (by omega)]
        simp
  | line line rest hline ih =>
      obtain ⟨fuel, rfl⟩ := Nat.exists_eq_succ_of_ne_zero (by omega : fuel ≠ 0)
      have hshort : rest.length < fuel := by
        simp at hfuel
        omega
      rw [lines_line hline]
      unfold afterLabel
      rw [getline_line hline]
      simp only [if_true]
      rw [ih hshort]
      simp

theorem afterLabel_eq (stream : Ifstream) {fuel : ℕ} (hfuel : stream.rest.length < fuel)
    (tempLine html : Bytes) :
    afterLabel fuel stream tempLine html =
      .ok (html ++ unlines (chr '\n') stream.lines) := by
  obtain ⟨rest, good⟩ := stream
  cases good with
  | true => exact afterLabel_good hfuel tempLine html
  | false =>
      rw [afterLabel_not_good (by omega)]
      simp [Ifstream.lines]

/-! ## The template -/

def templateLines (file : Option Bytes) : List Bytes :=
  (Ifstream.ofFile file).lines

/-- The lines before the label, the rows, and the lines after it. -/
def filledTemplate (lines : List Bytes) (rows : Bytes) : Bytes :=
  unlines (chr '\n') (lines.takeWhile (· ≠ filelistLabel)) ++ rows ++
    unlines (chr '\n') (lines.dropWhile (· ≠ filelistLabel)).tail

theorem fillTemplate_of_label {file : Option Bytes}
    (hlabel : filelistLabel ∈ templateLines file) (rows : Bytes) :
    fillTemplate file rows = .ok (filledTemplate (templateLines file) rows) := by
  cases file with
  | none => exact absurd hlabel List.not_mem_nil
  | some content =>
      obtain ⟨stream, line, hrun, hlines⟩ := beforeLabel_of_label hlabel
        (by omega : content.length < content.length + 2) [] []
      unfold fillTemplate
      refine bind_eq_ok.mpr ⟨_, hrun, ?_⟩
      simp only [List.nil_append]
      rw [afterLabel_eq stream (by omega), hlines]
      rfl

theorem beforeLabel_diverges_of_file {file : Option Bytes}
    (hlabel : filelistLabel ∉ templateLines file) (fuel : ℕ) :
    beforeLabel fuel (Ifstream.ofFile file) [] [] = .error .diverges := by
  cases file with
  | none => exact beforeLabel_not_good (by decide) fuel [] []
  | some content => exact beforeLabel_diverges hlabel fuel [] []

theorem fillTemplate_diverges {file : Option Bytes}
    (hlabel : filelistLabel ∉ templateLines file) (rows : Bytes) :
    fillTemplate file rows = .error .diverges := by
  have hloop := beforeLabel_diverges_of_file hlabel
    ((Ifstream.ofFile file).rest.length + 2)
  change (beforeLabel _ (Ifstream.ofFile file) [] [] >>= _) = _
  rw [hloop]
  rfl

/-! ## The page -/

section Page

variable {env : Environment} {before : List SysCall} {dirName : Bytes}
  {entries : List EntryName}

/-- The file `html/filelist.html` when the page of the directory opens it. -/
def templateFile (env : Environment) (before : List SysCall) (dirName : Bytes) :
    Option Bytes :=
  env.content (before ++ [.opendir dirName]) (cstr filelistPath)

def listedNames (entries : List EntryName) : List Bytes :=
  (entries.map (·.1)).filter fun name => name ≠ dot ∧ name ≠ dotdot

theorem fileListPage_result (hentries : env.entries before (cstr dirName) = some entries)
    (row : Bytes → Bytes) :
    (fileListPage env dirName row before).result =
      fillTemplate (templateFile env before dirName)
        ((listedNames entries).flatMap row) := by
  unfold fileListPage getFileVec Environment.opendir
  rw [bind_assoc, perform_bind_result, hentries, pure_bind]
  unfold Environment.ifstream
  rw [perform_bind_result]
  rfl

theorem fileListPage_iff (hentries : env.entries before (cstr dirName) = some entries)
    (row : Bytes → Bytes) :
    (fileListPage env dirName row before).result =
        .ok (filledTemplate (templateLines (templateFile env before dirName))
          ((listedNames entries).flatMap row)) ↔
      filelistLabel ∈ templateLines (templateFile env before dirName) := by
  rw [fileListPage_result hentries]
  constructor
  · intro hpage
    by_contra hlabel
    rw [fillTemplate_diverges hlabel] at hpage
    cases hpage
  · intro hlabel
    exact fillTemplate_of_label hlabel _

theorem fileListPage_returns_iff
    (hentries : env.entries before (cstr dirName) = some entries) (row : Bytes → Bytes) :
    Returns (fileListPage env dirName row before).result ↔
      filelistLabel ∈ templateLines (templateFile env before dirName) := by
  constructor
  · intro hreturns
    by_contra hlabel
    rw [fileListPage_result hentries, fillTemplate_diverges hlabel] at hreturns
    exact not_returns_error _ hreturns
  · intro hlabel
    exact ⟨_, (fileListPage_iff hentries row).mpr hlabel⟩

/-- Both overloads build the page exactly when the template has the label, and
otherwise the first loop goes on for any number of rounds. -/
theorem getFileListPage_iff_label
    (hentries : env.entries before (cstr dirName) = some entries) (m_url : Bytes) :
    ((getFileListPage env dirName m_url before).result =
        .ok (filledTemplate (templateLines (templateFile env before dirName))
          ((listedNames entries).flatMap (linkedRow m_url))) ↔
      filelistLabel ∈ templateLines (templateFile env before dirName)) ∧
    ((getRootListPage env dirName before).result =
        .ok (filledTemplate (templateLines (templateFile env before dirName))
          ((listedNames entries).flatMap plainRow)) ↔
      filelistLabel ∈ templateLines (templateFile env before dirName)) ∧
    ((∃ fuel, Returns (beforeLabel fuel
        (Ifstream.ofFile (templateFile env before dirName)) [] [])) ↔
      filelistLabel ∈ templateLines (templateFile env before dirName)) := by
  refine ⟨fileListPage_iff hentries _, fileListPage_iff hentries _, ?_⟩
  constructor
  · intro h
    obtain ⟨fuel, hreturns⟩ := h
    by_contra hlabel
    rw [beforeLabel_diverges_of_file hlabel] at hreturns
    exact not_returns_error _ hreturns
  · intro hlabel
    obtain ⟨content, hfile⟩ : ∃ content, templateFile env before dirName = some content := by
      cases hfile : templateFile env before dirName with
      | none =>
          rw [hfile] at hlabel
          exact absurd hlabel List.not_mem_nil
      | some content => exact ⟨content, rfl⟩
    rw [hfile] at hlabel ⊢
    obtain ⟨stream, line, hrun, _⟩ :=
      beforeLabel_of_label hlabel (Nat.lt_succ_self content.length) [] []
    exact ⟨_, _, hrun⟩

end Page

def listedEnvironment (template : Bytes) : Environment where
  entries := fun _ _ => some [⟨ascii "a", by decide⟩]
  content := fun _ _ => some template

theorem getFileListPage_iff_label_last_line :
    (getRootListPage (listedEnvironment (ascii "<p>\n<!--filelist_label-->")) (ascii ".")
        []).result = .ok (ascii "<p>\n" ++ plainRow (ascii "a")) := by
  have hlabel : filelistLabel ∈ templateLines
      (templateFile (listedEnvironment (ascii "<p>\n<!--filelist_label-->")) []
        (ascii ".")) := by
    decide
  have hentries : (listedEnvironment (ascii "<p>\n<!--filelist_label-->")).entries []
      (cstr (ascii ".")) = some [⟨ascii "a", by decide⟩] :=
    rfl
  have hpage := (getFileListPage_iff_label hentries (ascii "/")).2.1.mpr hlabel
  have hlines : templateLines (templateFile
      (listedEnvironment (ascii "<p>\n<!--filelist_label-->")) [] (ascii ".")) =
        [ascii "<p>", filelistLabel] := by
    decide
  have hnames : listedNames [⟨ascii "a", by decide⟩] = [ascii "a"] := by decide
  have hbefore : [ascii "<p>", filelistLabel].takeWhile (· ≠ filelistLabel) =
      [ascii "<p>"] := by
    decide
  have hafter : ([ascii "<p>", filelistLabel].dropWhile (· ≠ filelistLabel)).tail = [] := by
    decide
  rw [hpage, hlines, hnames, List.flatMap_singleton]
  unfold filledTemplate
  rw [hbefore, hafter, unlines_nil, List.append_nil]
  rfl

/-- An empty template. -/
theorem getFileListPage_empty_template :
    (getRootListPage (listedEnvironment []) (ascii ".") []).result =
        .error .diverges ∧
      ∀ fuel, beforeLabel fuel (Ifstream.ofFile (some [])) [] [] = .error .diverges := by
  have hlabel : filelistLabel ∉ templateLines (some []) := by decide
  have hentries : (listedEnvironment []).entries [] (cstr (ascii ".")) =
      some [⟨ascii "a", by decide⟩] := rfl
  refine ⟨?_, beforeLabel_diverges_of_file hlabel⟩
  unfold getRootListPage
  rw [fileListPage_result hentries]
  exact fillTemplate_diverges hlabel _

end MyFileServer
