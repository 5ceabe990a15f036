import Mathlib.Data.List.TakeWhile
import Mathlib.Tactic

/-!
# References between pages

The path that a reference on a page leads to.  A path is a row of segments with
a slash in front of each.  A reference without scheme, host and leading slash
takes the place of the last segment of the page, and the dot segments of the
result are removed.  Bytes are written as their numbers: 47 is the slash, 46
the dot, 58 the colon, 63 and 35 are the marks in front of a query and of a
fragment.
-/

namespace UriReference

abbrev Text := List UInt8

def absolute (segments : List Text) : Text :=
  segments.flatMap fun segment => 47 :: segment

/-- The segments that stay, behind those that have been kept.  A dot segment at
the end leaves an empty segment. -/
def removeDots : List Text → List Text → List Text
  | kept, [] => kept
  | kept, segment :: rest =>
      let dir := if segment = [46, 46] then kept.dropLast else kept
      if segment = [46] ∨ segment = [46, 46] then
        if rest = [] then dir ++ [[]] else removeDots dir rest
      else
        removeDots (kept ++ [segment]) rest

/-- A path that begins with a slash, without dot segments. -/
def normalise (path : Text) : Text :=
  absolute (removeDots [] (path.splitOn 47).tail)

/-- The part of the path up to its last slash. -/
def folder (path : Text) : Text :=
  (path.reverse.dropWhile (· ≠ 47)).reverse

/-- What stands in front of the query and the fragment. -/
def pathOf (reference : Text) : Text :=
  reference.takeWhile fun c => c ≠ 63 ∧ c ≠ 35

/-- The reference names a scheme or a host. -/
def leavesSite (reference : Text) : Bool :=
  (58 ∈ reference.takeWhile fun c => c ≠ 47 ∧ c ≠ 63 ∧ c ≠ 35) ||
    [47, 47].isPrefixOf reference

/-- The path that the reference asks for on the site of the page `base`. -/
def resolve (base reference : Text) : Option Text :=
  if leavesSite reference then none
  else
    let path := pathOf reference
    if path = [] then some base
    else if path.head? = some 47 then some (normalise path)
    else some (normalise (folder base ++ path))

/-! ## Plain segments -/

/-- The bytes of a segment, other than `&`. -/
def isSegmentByte (c : UInt8) : Bool :=
  (48 ≤ c && c ≤ 57) || (65 ≤ c && c ≤ 90) || (97 ≤ c && c ≤ 122) ||
    c ∈ [33, 36, 37, 39, 40, 41, 42, 43, 44, 45, 46, 58, 59, 61, 64, 95, 126]

structure PlainSegment (segment : Text) : Prop where
  bytes : segment.all isSegmentByte
  not_dot : segment ≠ [46]
  not_dots : segment ≠ [46, 46]

theorem PlainSegment.notMem {segment : Text} (hsegment : PlainSegment segment) {c : UInt8}
    (hc : isSegmentByte c = false) : c ∉ segment := by
  intro hmem
  rw [List.all_eq_true.mp hsegment.bytes c hmem] at hc
  cases hc

@[simp] theorem absolute_nil : absolute [] = [] := rfl

@[simp] theorem absolute_cons (segment : Text) (segments : List Text) :
    absolute (segment :: segments) = 47 :: (segment ++ absolute segments) := rfl

@[simp] theorem absolute_append (front back : List Text) :
    absolute (front ++ back) = absolute front ++ absolute back :=
  List.flatMap_append

theorem splitOn_absolute {segments : List Text} (hsegments : ∀ s ∈ segments, 47 ∉ s)
    {first : Text} (hfirst : 47 ∉ first) :
    (first ++ absolute segments).splitOn 47 = first :: segments := by
  induction segments generalizing first with
  | nil => rw [absolute_nil, List.append_nil, List.splitOn_eq_singleton hfirst]
  | cons segment segments ih =>
      rw [absolute_cons, List.splitOn_append_cons_self, List.splitOn_eq_singleton hfirst,
        ih (fun s hs => hsegments s (List.mem_cons_of_mem _ hs)) (hsegments segment (by simp))]
      rfl

theorem removeDots_of_plain {segments : List Text}
    (hsegments : ∀ s ∈ segments, PlainSegment s) (kept : List Text) :
    removeDots kept segments = kept ++ segments := by
  induction segments generalizing kept with
  | nil => exact (List.append_nil kept).symm
  | cons segment segments ih =>
      have hsegment := hsegments segment (by simp)
      have hstays : ¬(segment = [46] ∨ segment = [46, 46]) := by
        rintro (hdot | hdots)
        · exact hsegment.not_dot hdot
        · exact hsegment.not_dots hdots
      unfold removeDots
      simp only [if_neg hstays]
      rw [ih (fun s hs => hsegments s (List.mem_cons_of_mem _ hs)), List.append_assoc,
        List.singleton_append]

theorem normalise_absolute {segments : List Text}
    (hsegments : ∀ s ∈ segments, PlainSegment s) :
    normalise (absolute segments) = absolute segments := by
  have hsplit : (absolute segments).splitOn 47 = [] :: segments :=
    splitOn_absolute (fun s hs => (hsegments s hs).notMem (by decide)) List.not_mem_nil
  unfold normalise
  rw [hsplit, List.tail_cons, removeDots_of_plain hsegments, List.nil_append]

theorem folder_append {last : Text} (hlast : 47 ∉ last) (front : Text) :
    folder (front ++ 47 :: last) = front ++ [47] := by
  have hbefore : ∀ c ∈ last.reverse, decide (c ≠ 47) = true := by
    intro c hc
    rw [decide_eq_true_eq]
    rintro rfl
    exact hlast (List.mem_reverse.mp hc)
  unfold folder
  rw [List.reverse_append, List.reverse_cons, List.append_assoc,
    List.dropWhile_append_of_pos hbefore, List.singleton_append,
    List.dropWhile_cons_of_neg (by decide), List.reverse_cons, List.reverse_reverse]

section Beside

variable {dirs rest : List Text} {last first : Text}

theorem takeWhile_first (hfirst : ∀ c ∈ first, c ≠ 47 ∧ c ≠ 63 ∧ c ≠ 35) :
    (first ++ absolute rest).takeWhile (fun c => c ≠ 47 ∧ c ≠ 63 ∧ c ≠ 35) = first := by
  rw [List.takeWhile_append_of_pos (by simpa using hfirst)]
  cases rest with
  | nil => rw [absolute_nil, List.takeWhile_nil, List.append_nil]
  | cons segment rest =>
      rw [absolute_cons, List.takeWhile_cons_of_neg (by decide), List.append_nil]

theorem pathOf_of_plain (hfirst : PlainSegment first) (hrest : ∀ s ∈ rest, PlainSegment s) :
    pathOf (first ++ absolute rest) = first ++ absolute rest := by
  have hplain : ∀ s, PlainSegment s → ∀ c ∈ s, c ≠ 63 ∧ c ≠ 35 := by
    intro s hs c hc
    constructor
    · rintro rfl
      exact hs.notMem (by decide) hc
    · rintro rfl
      exact hs.notMem (by decide) hc
  unfold pathOf
  rw [List.takeWhile_eq_self_iff]
  intro c hc
  rw [decide_eq_true_eq]
  rcases List.mem_append.mp hc with hc | hc
  · exact hplain first hfirst c hc
  · obtain ⟨segment, hsegment, hc⟩ := List.mem_flatMap.mp hc
    rcases List.mem_cons.mp hc with rfl | hc
    · decide
    · exact hplain segment (hrest segment hsegment) c hc

/-- A reference of plain segments is read from the place of the page. -/
theorem resolve_beside (hdirs : ∀ s ∈ dirs, PlainSegment s) (hlast : PlainSegment last)
    (hfirst : PlainSegment first) (hnonempty : first ≠ []) (hcolon : 58 ∉ first)
    (hrest : ∀ s ∈ rest, PlainSegment s) :
    resolve (absolute (dirs ++ [last])) (first ++ absolute rest) =
      some (absolute (dirs ++ first :: rest)) := by
  have hhead : (first ++ absolute rest).head? ≠ some 47 := by
    rw [List.head?_append_of_ne_nil _ hnonempty]
    intro hslash
    exact hfirst.notMem (by decide) (List.mem_of_head? hslash)
  have hstays : leavesSite (first ++ absolute rest) = false := by
    have hfree : ∀ c ∈ first, c ≠ 47 ∧ c ≠ 63 ∧ c ≠ 35 := by
      intro c hc
      refine ⟨?_, ?_, ?_⟩ <;>
        · rintro rfl
          exact hfirst.notMem (by decide) hc
    unfold leavesSite
    rw [takeWhile_first hfree, decide_eq_false hcolon, Bool.false_or, Bool.eq_false_iff]
    intro hslashes
    obtain ⟨tail, htail⟩ := List.isPrefixOf_iff_prefix.mp hslashes
    rw [← htail] at hhead
    exact hhead rfl
  have hplain : ∀ s ∈ dirs ++ first :: rest, PlainSegment s := by
    intro s hs
    rcases List.mem_append.mp hs with hs | hs
    · exact hdirs s hs
    · rcases List.mem_cons.mp hs with rfl | hs
      · exact hfirst
      · exact hrest s hs
  have hfolder : folder (absolute (dirs ++ [last])) = absolute dirs ++ [47] := by
    rw [absolute_append, absolute_cons, absolute_nil, List.append_nil]
    exact folder_append (hlast.notMem (by decide)) _
  have hmerged : absolute dirs ++ [47] ++ (first ++ absolute rest) =
      absolute (dirs ++ first :: rest) := by
    rw [absolute_append, absolute_cons, List.append_assoc, List.singleton_append]
  unfold resolve
  simp only [hstays, Bool.false_eq_true, if_false, pathOf_of_plain hfirst hrest]
  rw [if_neg (List.append_ne_nil_of_left_ne_nil hnonempty _), if_neg hhead, hfolder, hmerged,
    normalise_absolute hplain]

end Beside

example : resolve [47, 97, 47, 98] [46, 46, 47, 99] = some [47, 99] := by decide

end UriReference
