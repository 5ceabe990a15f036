import MyFileServer.Lib.SortedSet

/-!
# A directory in the order of its names

Files that are opened to be appended to, and what the files hold one after
another in the order in which a directory lists them.
-/

/-- A file that is not listed holds nothing. -/
structure Listing (Name β : Type*) [LinearOrder Name] where
  names : SortedSet Name
  content : Name → List β
  content_eq_nil : ∀ name, name ∉ names → content name = []

namespace Listing

variable {Name β : Type*} [LinearOrder Name]

def empty : Listing Name β where
  names := .empty
  content := fun _ => []
  content_eq_nil := fun _ _ => rfl

/-- The file is there afterwards, with what it held. -/
def openFile (files : Listing Name β) (name : Name) : Listing Name β where
  names := files.names.insert name
  content := files.content
  content_eq_nil := by
    intro other hother
    exact files.content_eq_nil other fun h => hother (SortedSet.mem_insert.mpr (.inr h))

def append (files : Listing Name β) (name : Name) (data : List β) : Listing Name β where
  names := files.names.insert name
  content := Function.update files.content name (files.content name ++ data)
  content_eq_nil := by
    intro other hother
    have hsplit := not_or.mp (mt SortedSet.mem_insert.mpr hother)
    rw [Function.update_of_ne hsplit.1]
    exact files.content_eq_nil other hsplit.2

/-- All files in the order of their names. -/
def cat (files : Listing Name β) : List β :=
  files.names.elems.flatMap files.content

/-- No name comes behind this one. -/
def Last (files : Listing Name β) (name : Name) : Prop :=
  name ∈ files.names ∧ ∀ other ∈ files.names, other ≤ name

theorem insertElem_of_mem {name : Name} {names : List Name} (hnames : names.Pairwise (· < ·))
    (hmem : name ∈ names) : SortedSet.insertElem name names = names := by
  induction names with
  | nil => exact absurd hmem List.not_mem_nil
  | cons other names ih =>
      obtain ⟨hother, htail⟩ := List.pairwise_cons.mp hnames
      rw [SortedSet.insertElem]
      rcases List.mem_cons.mp hmem with rfl | hmem
      · rw [if_neg (lt_irrefl _), if_pos rfl]
      · have hlt := hother name hmem
        rw [if_neg hlt.not_gt, if_neg hlt.ne', ih htail hmem]

theorem flatMap_insertElem {name : Name} {names : List Name} {content : Name → List β}
    (hnew : content name = []) :
    (SortedSet.insertElem name names).flatMap content = names.flatMap content := by
  induction names with
  | nil => simp [SortedSet.insertElem, hnew]
  | cons other names ih =>
      rw [SortedSet.insertElem]
      split_ifs
      · rw [List.flatMap_cons, hnew, List.nil_append]
      · rfl
      · rw [List.flatMap_cons, List.flatMap_cons, ih]

/-- To open a file changes nothing that is in the files. -/
theorem cat_openFile (files : Listing Name β) (name : Name) :
    (files.openFile name).cat = files.cat := by
  by_cases hname : name ∈ files.names
  · exact congrArg (List.flatMap files.content) (insertElem_of_mem files.names.sorted hname)
  · exact flatMap_insertElem (files.content_eq_nil name hname)

theorem last_openFile {files : Listing Name β} {name : Name}
    (hlast : ∀ other ∈ files.names, other ≤ name) : (files.openFile name).Last name := by
  refine ⟨SortedSet.mem_insert.mpr (.inl rfl), fun other hother => ?_⟩
  rcases SortedSet.mem_insert.mp hother with rfl | hother
  · exact le_rfl
  · exact hlast other hother

theorem last_append {files : Listing Name β} {name : Name} (hlast : files.Last name)
    (data : List β) : (files.append name data).Last name :=
  last_openFile hlast.2

/-- The names with the last one apart. -/
theorem exists_elems_eq_append {files : Listing Name β} {name : Name} (hlast : files.Last name) :
    ∃ front, files.names.elems = front ++ [name] ∧ name ∉ front := by
  obtain ⟨front, back, hsplit⟩ := List.append_of_mem hlast.1
  have hsorted := files.names.sorted
  rw [hsplit] at hsorted
  obtain ⟨_, hback, hfront⟩ := List.pairwise_append.mp hsorted
  have hnone : back = [] := by
    refine List.eq_nil_iff_forall_not_mem.mpr fun other hother => ?_
    have hlt := (List.pairwise_cons.mp hback).1 other hother
    have hmem : other ∈ files.names.elems := by
      rw [hsplit]
      exact List.mem_append_right _ (List.mem_cons_of_mem _ hother)
    exact absurd (hlast.2 other hmem) hlt.not_ge
  refine ⟨front, by rw [hsplit, hnone], fun hmem => ?_⟩
  exact lt_irrefl _ (hfront name hmem name List.mem_cons_self)

/-- What is appended to the last file comes behind everything. -/
theorem cat_append {files : Listing Name β} {name : Name} (hlast : files.Last name)
    (data : List β) : (files.append name data).cat = files.cat ++ data := by
  obtain ⟨front, hsplit, hfront⟩ := exists_elems_eq_append hlast
  have hnames : (files.append name data).names.elems = front ++ [name] :=
    (insertElem_of_mem files.names.sorted hlast.1).trans hsplit
  have hsame : front.flatMap (files.append name data).content =
      front.flatMap files.content := by
    refine List.flatMap_congr fun other hother => ?_
    exact Function.update_of_ne (ne_of_mem_of_not_mem hother hfront) _ _
  have hgrown : (files.append name data).content name = files.content name ++ data :=
    Function.update_self _ _ _
  unfold cat
  rw [hnames, hsplit, List.flatMap_append, List.flatMap_append, hsame, List.append_assoc]
  simp [hgrown]

end Listing
