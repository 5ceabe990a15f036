import MyFileServer.Http.AccountForm
import MyFileServer.Http.PathCalls

/-!
# The arrays of a fixed size

`name` and `password` have 100 bytes, `sql_insert` has 200 and `fullname` of
`scanDir` has 100.  Nothing in the code compares a length with these sizes.
For each of the three, the inputs for which every access is inside.
-/

namespace MyFileServer

open Execution CallLog Window

/-! ## The path in `fullname` -/

/-- The byte in front of index `n` of `fullname`.  For a path with a NUL inside
it is the NUL or a byte that was in the array before. -/
def SlashBefore (array path : Bytes) : Prop :=
  if 0 ∈ path then
    (cstr path).length + 1 < path.length ∧ array[path.length - 1]? = some (chr '/')
  else
    path.getLast? = some (chr '/')

instance (array path : Bytes) : Decidable (SlashBefore array path) := by
  unfold SlashBefore
  infer_instance

/-- The index at which the names of the entries start. -/
def entryStart (array path : Bytes) : ℕ :=
  if SlashBefore array path then path.length else path.length + 1

structure PathFits (array path : Bytes) : Prop where
  nonempty : path ≠ []
  text : (cstr path).length ≤ 99
  slash : ¬ SlashBefore array path → path.length ≤ 98

theorem length_cstr_lt {s : Bytes} (hs : 0 ∈ s) : (cstr s).length < s.length := by
  obtain ⟨rest, hrest⟩ := exists_cstr_append hs
  conv_rhs => rw [hrest]
  simp

theorem charBefore_eq_ok {fullname : Bytes} {n : ℕ} {c : UInt8} :
    charBefore fullname n = .ok c ↔ n ≠ 0 ∧ fullname[n - 1]? = some c := by
  cases n with
  | zero => exact iff_of_false (fun h => nomatch h) fun h => h.1 rfl
  | succ n =>
      change arrayGet fullname n = .ok c ↔ _
      rw [arrayGet_eq_ok]
      simp

theorem getElem?_copied (array : Bytes) {path : Bytes} (hne : path ≠ []) :
    (overwrite array 0 (cstr path ++ [0]))[path.length - 1]? = some (chr '/') ↔
      SlashBefore array path := by
  have hpos := List.length_pos_iff.mpr hne
  unfold overwrite SlashBefore
  rw [List.take_zero, List.nil_append, Nat.zero_add]
  split
  next hnul =>
    have hlt := length_cstr_lt hnul
    by_cases hbehind : (cstr path).length + 1 < path.length
    · rw [List.getElem?_append_right (by simp; omega), List.getElem?_drop,
        and_iff_right hbehind]
      have hindex : (cstr path ++ [0]).length +
          (path.length - 1 - (cstr path ++ [0]).length) = path.length - 1 := by
        simp
        omega
      rw [hindex]
    · have hindex : path.length - 1 = (cstr path).length := by omega
      rw [hindex, List.getElem?_append_left (by simp), List.getElem?_concat_length]
      refine iff_of_false ?_ fun h => hbehind h.1
      decide
  next hnul =>
    rw [cstr_of_notMem hnul, List.append_assoc,
      List.getElem?_append_left (by omega), List.getLast?_eq_getElem?]

/-! ## The walk of a directory -/

section Scan

variable {array path : Bytes} (harray : array.length = 100)

include harray

theorem scanStart_of_pathFits (hfits : PathFits array path) :
    ∃ fullname, fullname.length = 100 ∧
      scanStart array path = .ok (fullname, entryStart array path) := by
  have hroom : 0 + (cstr path ++ [0]).length ≤ array.length := by
    have htext := hfits.text
    simp
    omega
  have hcopy : strcpy array 0 (cstr path) =
      .ok (overwrite array 0 (cstr path ++ [0])) :=
    arrayPut_eq_ok.mpr ⟨hroom, rfl⟩
  have hlength := length_overwrite hroom
  have hslash := getElem?_copied array hfits.nonempty
  have hpos := List.length_pos_iff.mpr hfits.nonempty
  generalize overwrite array 0 (cstr path ++ [0]) = copied at hcopy hlength hslash
  unfold scanStart entryStart
  rw [hcopy]
  by_cases hends : SlashBefore array path
  · have hlast := charBefore_eq_ok.mpr ⟨hpos.ne', hslash.mpr hends⟩
    refine ⟨copied, hlength.trans harray, bind_eq_ok.mpr ⟨copied, rfl, ?_⟩⟩
    refine bind_eq_ok.mpr ⟨_, hlast, ?_⟩
    rw [if_neg (not_not.mpr rfl), if_pos hends]
    rfl
  · have hshort := hfits.slash hends
    have hlt : path.length - 1 < copied.length := by omega
    have hlast := charBefore_eq_ok.mpr ⟨hpos.ne', List.getElem?_eq_getElem hlt⟩
    have hother : copied[path.length - 1] ≠ chr '/' := by
      intro hsame
      apply hends
      rw [← hslash, List.getElem?_eq_getElem hlt, hsame]
    have hput : path.length + [chr '/', 0].length ≤ copied.length := by
      simp
      omega
    refine ⟨overwrite copied path.length [chr '/', 0], ?_,
      bind_eq_ok.mpr ⟨copied, rfl, ?_⟩⟩
    · rw [length_overwrite hput, hlength, harray]
    · refine bind_eq_ok.mpr ⟨_, hlast, ?_⟩
      rw [if_pos hother, if_neg hends]
      exact bind_eq_ok.mpr ⟨_, arrayPut_eq_ok.mpr ⟨hput, rfl⟩, rfl⟩

theorem pathFits_of_scanStart {start : Bytes × ℕ}
    (hstart : scanStart array path = .ok start) : PathFits array path := by
  unfold scanStart at hstart
  obtain ⟨copied, hcopy, hrest⟩ := bind_eq_ok.mp hstart
  obtain ⟨hroom, rfl⟩ := arrayPut_eq_ok.mp hcopy
  have hlength := length_overwrite hroom
  obtain ⟨last, hlast, hslash⟩ := bind_eq_ok.mp hrest
  obtain ⟨hpos, hget⟩ := charBefore_eq_ok.mp hlast
  have hne : path ≠ [] := by
    rintro rfl
    exact hpos rfl
  rw [List.length_append, List.length_singleton] at hroom
  refine ⟨hne, by omega, fun hends => ?_⟩
  have hother : last ≠ chr '/' := by
    rintro rfl
    exact hends ((getElem?_copied array hne).mp hget)
  rw [if_pos hother] at hslash
  obtain ⟨slashed, hput, _⟩ := bind_eq_ok.mp hslash
  have hfit := (arrayPut_eq_ok.mp hput).1
  rw [hlength, harray] at hfit
  simp at hfit
  omega

end Scan

def ScannedFits (n : ℕ) (entries : List EntryName) : Prop :=
  ∀ entry ∈ entries, entry.1 ≠ dot → entry.1 ≠ dotdot → n + entry.1.length ≤ 99

theorem scanEntries_returns_iff {env : Environment} {n : ℕ} {fullname : Bytes}
    (hfullname : fullname.length = 100) (entries : List EntryName)
    (before : List SysCall) :
    Returns (scanEntries env n fullname entries before).result ↔
      ScannedFits n entries := by
  induction entries generalizing fullname before with
  | nil => exact iff_of_true (returns_ok ()) fun entry hentry => nomatch hentry
  | cons entry entries ih =>
      unfold ScannedFits at ih ⊢
      rw [List.forall_mem_cons]
      unfold scanEntries
      by_cases hskip : entry.1 = dot ∨ entry.1 = dotdot
      · rw [if_pos hskip, ih hfullname, iff_and_self]
        intro _ hdot hdotdot
        exact absurd hskip (not_or.mpr ⟨hdot, hdotdot⟩)
      · rw [if_neg hskip]
        obtain ⟨hdot, hdotdot⟩ := not_or.mp hskip
        constructor
        · intro h
          obtain ⟨r, hresult⟩ := h
          obtain ⟨copied, hcopy, hstat⟩ := lift_bind_result_eq_ok.mp hresult
          obtain ⟨hroom, rfl⟩ := arrayPut_eq_ok.mp hcopy
          unfold Environment.stat at hstat
          rw [perform_bind_result] at hstat
          refine ⟨fun _ _ => ?_, (ih (by rw [length_overwrite hroom, hfullname]) _).mp
            ⟨r, hstat⟩⟩
          simp at hroom
          omega
        · intro h
          obtain ⟨hentry, hentries⟩ := h
          have hroom : n + (entry.1 ++ [0]).length ≤ fullname.length := by
            have hshort := hentry hdot hdotdot
            simp
            omega
          have hlength := (length_overwrite hroom).trans hfullname
          obtain ⟨r, hresult⟩ := (ih hlength (before ++
            [.stat (overwrite fullname n (entry.1 ++ [0]))])).mpr hentries
          refine ⟨r, lift_bind_result_eq_ok.mpr
            ⟨_, arrayPut_eq_ok.mpr ⟨hroom, rfl⟩, ?_⟩⟩
          unfold Environment.stat
          rw [perform_bind_result]
          exact hresult

/-- The path, and the name of every entry behind it. -/
structure ScanFits (env : Environment) (before : List SysCall) (path : Bytes) :
    Prop where
  start : PathFits (env.staleArray before) path
  names : ∀ entries, env.entries before (cstr path) = some entries →
    ScannedFits (entryStart (env.staleArray before) path) entries

theorem closedir_bind_returns {scan : Sys Unit} {path : Bytes} {before : List SysCall} :
    Returns ((scan >>= fun _ => closedir path) before).result ↔
      Returns (scan before).result := by
  unfold Returns
  simp only [bind_result_eq_ok]
  constructor
  · rintro ⟨_, scanned, hscan, _⟩
    exact ⟨scanned, hscan⟩
  · rintro ⟨scanned, hscan⟩
    exact ⟨(), scanned, hscan, rfl⟩

section Opened

variable {env : Environment} {before : List SysCall} {path : Bytes} {start : Bytes × ℕ}
  (hstart : scanStart (env.staleArray before) path = .ok start)

include hstart

theorem scanDir_of_none (hentries : env.entries before (cstr path) = none) :
    scanDir env path before = ⟨.ok (), [.opendir path]⟩ := by
  unfold scanDir Environment.opendir
  rw [history_bind, hstart, lift_ok_bind, perform_bind, hentries]
  rfl

theorem scanDir_of_some {entries : List EntryName}
    (hentries : env.entries before (cstr path) = some entries) :
    scanDir env path before =
      ⟨((scanEntries env start.2 start.1 entries >>= fun _ => closedir path)
          (before ++ [.opendir path])).result,
        .opendir path ::
          ((scanEntries env start.2 start.1 entries >>= fun _ => closedir path)
            (before ++ [.opendir path])).calls⟩ := by
  unfold scanDir Environment.opendir
  rw [history_bind, hstart, lift_ok_bind, perform_bind, hentries]

end Opened

theorem scanStart_of_scanDir {env : Environment} {before : List SysCall} {path : Bytes}
    (hreturns : Returns (scanDir env path before).result) :
    ∃ start, scanStart (env.staleArray before) path = .ok start := by
  obtain ⟨r, hresult⟩ := hreturns
  unfold scanDir at hresult
  rw [history_bind] at hresult
  obtain ⟨start, hstart, _⟩ := lift_bind_result_eq_ok.mp hresult
  exact ⟨start, hstart⟩

theorem scanDir_returns_iff {env : Environment} {before : List SysCall} {path : Bytes} :
    Returns (scanDir env path before).result ↔ ScanFits env before path := by
  have harray := length_staleArray env before
  have hwalk (hfits : PathFits (env.staleArray before) path) :
      Returns (scanDir env path before).result ↔
        ∀ entries, env.entries before (cstr path) = some entries →
          ScannedFits (entryStart (env.staleArray before) path) entries := by
    obtain ⟨fullname, hlength, hstart⟩ := scanStart_of_pathFits harray hfits
    cases hentries : env.entries before (cstr path) with
    | none =>
        rw [scanDir_of_none hstart hentries]
        exact iff_of_true (returns_ok ()) fun entries h => nomatch h
    | some entries =>
        rw [scanDir_of_some hstart hentries, closedir_bind_returns,
          scanEntries_returns_iff hlength]
        simp
  constructor
  · intro hreturns
    obtain ⟨start, hstart⟩ := scanStart_of_scanDir hreturns
    have hfits := pathFits_of_scanStart harray hstart
    exact ⟨hfits, (hwalk hfits).mp hreturns⟩
  · intro hfits
    exact (hwalk hfits.start).mpr hfits.names

/-! ## The four arrays -/

/-- The accesses to the four arrays are inside, each exactly under its own
condition. -/
theorem fixed_arrays_iff (m_string : Bytes) (env : Environment) (before : List SysCall)
    (path : Bytes) :
    (Returns (accountForm m_string) ↔ FormFits m_string) ∧
      (Returns (accountForm m_string >>= fun form => sqlInsert form.1 form.2) ↔
        FormFits m_string ∧
          (cstr (nameField m_string)).length + (passwordField m_string).length ≤ 151) ∧
      (Returns (scanDir env path before).result ↔ ScanFits env before path) := by
  refine ⟨accountForm_returns_iff, ?_, scanDir_returns_iff⟩
  rw [returns_bind]
  simp only [accountForm_eq_ok, sqlInsert_returns_iff]
  constructor
  · intro h
    obtain ⟨form, ⟨hfits, rfl⟩, hsql⟩ := h
    exact ⟨hfits, hsql⟩
  · intro h
    exact ⟨_, ⟨h.1, rfl⟩, h.2⟩

/-- A body without `&`, a form whose fields fit but whose statement does not,
and a directory with a path of 100 bytes. -/
theorem fixed_arrays_overrun :
    ¬ Returns (accountForm (ascii "user=bob")) ∧
      Returns (accountForm (encodeForm (List.replicate 90 (chr 'a'))
        (List.replicate 90 (chr 'b')))) ∧
      ¬ Returns (sqlInsert (List.replicate 90 (chr 'a')) (List.replicate 90 (chr 'b'))) ∧
      ¬ Returns (scanDir {} (List.replicate 100 (chr 'a')) []).result := by
  have hnodelimiter : ¬ FormFits (ascii "user=bob") := by
    intro hfits
    exact absurd hfits.delimiter (by decide)
  have hlong : ¬ ScanFits {} [] (List.replicate 100 (chr 'a')) := by
    intro hfits
    exact absurd hfits.start.text (by decide)
  refine ⟨mt accountForm_returns_iff.mp hnodelimiter, ?_,
    mt sqlInsert_returns_iff.mp (by simp), mt scanDir_returns_iff.mp hlong⟩
  exact ⟨_, accountForm_encodeForm (by decide) (by decide) (by decide) (by simp)
    (by simp)⟩

end MyFileServer
