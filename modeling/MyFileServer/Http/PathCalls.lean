import MyFileServer.Http.HandlerCalls
import MyFileServer.Lib.LexicalPath

/-!
# The paths that the handler passes to the system

For a work path and a request, `NamedPaths` lists the paths of all calls that
the handler makes in any file system, up to the entries of the directories
among them.
-/

namespace MyFileServer

open Execution CallLog Window LexicalPath

/-! ## Names built by `scanDir` -/

/-- What `scanDir` puts before the name of an entry: the path with one slash
at its end, or bytes that a NUL cuts back to the path. -/
inductive EntryPrefix (path : Bytes) : Bytes → Prop
  | cut {start : Bytes} : 0 ∈ start → cstr start = cstr path →
      EntryPrefix path start
  | slash {dir : Bytes} : 0 ∉ path → path = dir ++ [chr '/'] →
      EntryPrefix path path
  | added : 0 ∉ path → path ≠ [] → EntryPrefix path (path ++ [chr '/'])

theorem entryPrefix_of_cut {path start : Bytes} (hpath : 0 ∈ path)
    {array : Bytes} (harray : array.take (cstr path ++ [0]).length = cstr path ++ [0])
    (hstart : array.take path.length <+: start) :
    EntryPrefix path start := by
  obtain ⟨rest, hrest⟩ := exists_cstr_append hpath
  have hshort : (cstr path ++ [0]).length ≤ path.length := by
    conv_rhs => rw [hrest]
    simp only [List.length_append, List.length_cons, List.length_nil]
    omega
  have hcut : cstr path ++ [0] <+: start := by
    rw [← harray]
    exact (List.take_prefix_take_left hshort).trans hstart
  obtain ⟨more, rfl⟩ := hcut
  rw [List.append_assoc]
  exact .cut (by simp) (cstr_append_nul (cstr_notMem path) more)

section Copied

variable {path copied : Bytes}
  (hfront : copied.take (cstr path ++ [0]).length = cstr path ++ [0])

include hfront

theorem take_of_copied (hnul : 0 ∉ path) : copied.take path.length = path := by
  rw [cstr_of_notMem hnul] at hfront
  have htake := congrArg (List.take path.length) hfront
  rwa [List.take_take, List.take_left, min_eq_left (by simp)] at htake

theorem entryPrefix_added (hne : path ≠ [])
    (hroom : path.length + [chr '/', 0].length ≤ copied.length) :
    EntryPrefix path
      ((overwrite copied path.length [chr '/', 0]).take (path.length + 1)) := by
  have htake : (overwrite copied path.length [chr '/', 0]).take path.length =
      copied.take path.length := take_overwrite (by omega)
  by_cases hnul : 0 ∈ path
  · apply entryPrefix_of_cut hnul hfront
    rw [← htake]
    exact List.take_prefix_take_left (Nat.le_succ _)
  · have hstart : (overwrite copied path.length [chr '/', 0]).take
        (path.length + 1) = path ++ [chr '/'] := by
      unfold overwrite
      rw [take_of_copied hfront hnul, List.append_assoc,
        List.take_length_add_append]
      rfl
    rw [hstart]
    exact .added hnul hne

theorem entryPrefix_kept {dir : Bytes} {c : UInt8} (hpath : path = dir ++ [c])
    (hslash : copied[dir.length]? = some (chr '/')) :
    EntryPrefix path (copied.take path.length) := by
  by_cases hnul : 0 ∈ path
  · exact entryPrefix_of_cut hnul hfront (List.prefix_refl _)
  · have hwhole := take_of_copied hfront hnul
    have hlast : path[dir.length]? = some (chr '/') := by
      rw [← hwhole, List.getElem?_take_of_lt (by simp [hpath]), hslash]
    rw [hpath, List.getElem?_concat_length, Option.some.injEq] at hlast
    rw [hwhole]
    exact .slash hnul (by rw [hpath, hlast])

end Copied

theorem scanStart_spec {array path fullname : Bytes} {n : ℕ}
    (hstart : scanStart array path = .ok (fullname, n)) :
    fullname.length = array.length ∧ n ≤ array.length ∧
      EntryPrefix path (fullname.take n) := by
  unfold scanStart at hstart
  obtain ⟨copied, hcopy, hrest⟩ := bind_eq_ok.mp hstart
  obtain ⟨hfit, rfl⟩ := arrayPut_eq_ok.mp hcopy
  have hcopied := length_overwrite hfit
  have hfront : (overwrite array 0 (cstr path ++ [0])).take
      (cstr path ++ [0]).length = cstr path ++ [0] :=
    take_overwrite_back (Nat.zero_le _) (Nat.zero_add _).symm
  generalize overwrite array 0 (cstr path ++ [0]) = copied at *
  obtain ⟨last, hlast, hslash⟩ := bind_eq_ok.mp hrest
  have hne : path ≠ [] := by
    rintro rfl
    cases hlast
  split at hslash
  next hother =>
    obtain ⟨slashed, hput, hresult⟩ := bind_eq_ok.mp hslash
    obtain ⟨hroom, rfl⟩ := arrayPut_eq_ok.mp hput
    cases hresult
    have hlength : path.length + 2 ≤ copied.length := hroom
    exact ⟨(length_overwrite hroom).trans hcopied, by omega,
      entryPrefix_added hfront hne hroom⟩
  next hsame =>
    obtain ⟨rfl, rfl⟩ := Prod.mk.inj (Except.ok.inj hslash)
    obtain ⟨dir, c, hpath⟩ := (List.eq_nil_or_concat' path).resolve_left hne
    have hlength : path.length = dir.length + 1 := by
      rw [hpath, List.length_append, List.length_singleton]
    rw [hlength] at hlast
    have hget : copied[dir.length]? = some (chr '/') := by
      rw [arrayGet_eq_ok.mp hlast, not_not.mp hsame]
    have hbound := (List.getElem?_eq_some_iff.mp hget).1
    exact ⟨hcopied, by omega, entryPrefix_kept hfront hpath hget⟩

/-! ## Calls that name good paths -/

/-- A property of paths that a directory passes on to its entries. -/
structure EntryClosed (Good : Bytes → Prop) : Prop where
  below : ∀ (dir : Bytes) (entry : EntryName), dir ≠ [] → Good dir →
    entry.1 ≠ dotdot → Good (dir ++ [chr '/'] ++ entry.1)
  below_slash : ∀ (dir : Bytes) (entry : EntryName), Good (dir ++ [chr '/']) →
    entry.1 ≠ dotdot → Good (dir ++ [chr '/'] ++ entry.1)

/-- The path of the call is good; `Template` takes the place of `Good` for the
call that opens the page template. -/
def SysCall.Names (Good Template : Bytes → Prop) : SysCall → Prop
  | .ifstream path => Template path
  | .stat path | .openFile path | .opendir path | .ofstream path _
  | .write path _ | .remove path => Good (cstr path)
  | .closedir _ | .lseek _ _ | .update _ => True

/-- For some content of the array, the path and a slash fit into it. -/
def FitsArray (path : Bytes) : Prop :=
  ∃ array : Bytes, array.length = 100 ∧ Returns (scanStart array path)

section Scan

variable {Good Template : Bytes → Prop} {env : Environment}
  {before : List SysCall} {path : Bytes}

theorem EntryPrefix.good_entry {start : Bytes} (hstart : EntryPrefix path start)
    (hclosed : EntryClosed Good) (hpath : Good (cstr path)) (entry : EntryName)
    (hentry : entry.1 ≠ dotdot) (rest : Bytes) :
    Good (cstr (start ++ (entry.1 ++ [0]) ++ rest)) := by
  have hname : cstr (entry.1 ++ 0 :: rest) = entry.1 :=
    cstr_append_nul entry.2.2.2 rest
  have hshape : start ++ (entry.1 ++ [0]) ++ rest =
      start ++ (entry.1 ++ 0 :: rest) := by simp
  have hslash : (0 : UInt8) ∉ [chr '/'] := by decide
  rw [hshape]
  cases hstart with
  | cut hnul hcut =>
      rw [cstr_append_of_mem hnul, hcut]
      exact hpath
  | @slash dir hnul hdir =>
      rw [cstr_of_notMem hnul] at hpath
      rw [cstr_append_of_notMem hnul, hname, hdir]
      rw [hdir] at hpath
      exact hclosed.below_slash dir entry hpath hentry
  | added hnul hne =>
      rw [cstr_of_notMem hnul] at hpath
      rw [List.append_assoc, cstr_append_of_notMem hnul,
        cstr_append_of_notMem hslash, hname, ← List.append_assoc]
      exact hclosed.below path entry hne hpath hentry

theorem emits_scanEntries_names (hclosed : EntryClosed Good)
    (hpath : Good (cstr path)) {n : ℕ} {fullname : Bytes}
    (hn : n ≤ fullname.length) (hstart : EntryPrefix path (fullname.take n))
    (entries : List EntryName) :
    Emits (SysCall.Names Good Template)
      (scanEntries env n fullname entries) before := by
  induction entries generalizing fullname before with
  | nil => simp [scanEntries]
  | cons entry entries ih =>
      rw [emits_scanEntries_cons]
      split
      next => exact ih hn hstart
      next hname =>
        intro copied hcopy
        obtain ⟨hfit, rfl⟩ := arrayPut_eq_ok.mp hcopy
        have hkeep : (overwrite fullname n (entry.1 ++ [0])).take n =
            fullname.take n := take_overwrite hn
        refine ⟨?_, ih ?_ ?_⟩
        · exact hstart.good_entry hclosed hpath entry
            (fun h => hname (.inr h)) _
        · rw [length_overwrite hfit]
          exact hn
        · rw [hkeep]
          exact hstart

theorem length_staleArray (env : Environment) (before : List SysCall) :
    (env.staleArray before).length = 100 :=
  List.length_ofFn

theorem emits_scanDir_names (hclosed : EntryClosed Good)
    (hpath : FitsArray path → Good (cstr path)) :
    Emits (SysCall.Names Good Template) (scanDir env path) before := by
  rw [emits_scanDir]
  intro start hstart
  obtain ⟨hlength, hn, hprefix⟩ := scanStart_spec hstart
  have hgood := hpath ⟨_, length_staleArray env before, start, hstart⟩
  refine ⟨hgood, fun entries _ => ⟨?_, fun _ => trivial⟩⟩
  exact emits_scanEntries_names hclosed hgood (hlength ▸ hn) hprefix entries

theorem fitsArray_of_scanDir {scanned : Unit}
    (hscan : (scanDir env path before).result = .ok scanned) : FitsArray path := by
  unfold scanDir at hscan
  obtain ⟨_, hbefore, hrest⟩ := bind_result_eq_ok.mp hscan
  cases hbefore
  obtain ⟨start, hstart, _⟩ := bind_result_eq_ok.mp hrest
  exact ⟨_, length_staleArray env before, start, hstart⟩

end Scan

/-- The paths of the calls for a work path and a request, and the call that
opens the page template. -/
structure NamedPaths (Good Template : Bytes → Prop) (workPath_ : Bytes)
    (req : HttpRequest) : Prop where
  static : Good (cstr (workPath_ ++ req.path_))
  listing : (cstr req.path_).length ≠ 1 → FitsArray (workPath_ ++ req.path_) →
    Good (cstr (showPath (workPath_ ++ req.path_))) ∧ Template filelistPath
  login : routeOf req.path_ = .ok .login → Returns (accountForm req.m_string) →
    Good (cstr workPath_) ∧ Template filelistPath
  download : routeOf req.path_ = .ok .download → ∀ target,
    downloadPath (workPath_ ++ req.path_) req.path_ = .ok target →
      Good (cstr target)
  upload : routeOf req.path_ = .ok .upload → ∀ f_name,
    uploadName req = .ok f_name →
      Good (cstr (uploadDir (workPath_ ++ req.path_) req ++ f_name)) ∧
        (FitsArray (uploadDir (workPath_ ++ req.path_) req) →
          Good (cstr (uploadDir (workPath_ ++ req.path_) req)))
  delete : routeOf req.path_ = .ok .delete → ∀ target,
    deletePath (workPath_ ++ req.path_) req.path_ = .ok target →
      Good (cstr target) ∧
        (FitsArray (parentDir target) → Good (cstr (parentDir target)))

/-! ## The paths in every file system -/

section Every

variable {Good Template : Bytes → Prop} {workPath_ : Bytes}
  {req : HttpRequest}

theorem NamedPaths.emits (hclosed : EntryClosed Good) (env : Environment)
    (users : Users) (res : HttpResponse) (before : List SysCall)
    (hnamed : workPath_.length + req.path_.length ≤ maxSize →
      NamedPaths Good Template workPath_ req) :
    Emits (SysCall.Names Good Template)
      (setResponseBody env ⟨workPath_, users⟩ req res) before := by
  rw [emits_setResponseBody]
  intro path hpath
  obtain ⟨hfit, rfl⟩ := concat_eq_ok.mp hpath
  have hpaths := hnamed hfit
  refine ⟨hpaths.static, fun buffer _ => ?_, fun _ route hroute => ?_⟩
  · unfold sendExisting
    cases buffer.kind with
    | directory =>
        rw [emits_sendDirectory]
        intro hroot
        refine ⟨emits_scanDir_names hclosed fun _ => hpaths.static,
          fun scanned hscan => ?_⟩
        have hlisting := hpaths.listing hroot (fitsArray_of_scanDir hscan)
        exact emits_fileListPage.mpr ⟨hlisting.1, fun _ => hlisting.2⟩
    | regular =>
        rw [emits_sendRegular]
        exact ⟨hpaths.static, fun _ _ _ => trivial⟩
    | other => simp
  · unfold takeRoute
    cases route with
    | signUp => simp
    | signIn => simp
    | notFound => simp
    | login =>
        rw [emits_lift_bind]
        intro form hform
        rw [emits_bind_pure, emits_login]
        intro _
        have hlogin := hpaths.login hroute ⟨form, hform⟩
        exact emits_fileListPage.mpr ⟨hlogin.1, fun _ => hlogin.2⟩
    | register =>
        rw [emits_lift_bind]
        intro form _
        rw [emits_register]
        exact fun _ _ => trivial
    | download =>
        rw [emits_bind_pure, emits_download]
        intro target htarget
        have hgood := hpaths.download hroute target htarget
        exact ⟨hgood, hgood⟩
    | upload =>
        rw [emits_bind_pure, emits_upload]
        intro f_name hname
        obtain ⟨hgood, hdir⟩ := hpaths.upload hroute f_name hname
        exact ⟨emits_storeFile.mpr ⟨hgood, fun _ => hgood⟩,
          emits_scanDir_names hclosed hdir⟩
    | delete =>
        rw [emits_bind_pure, emits_delete]
        intro target htarget
        obtain ⟨hgood, hdir⟩ := hpaths.delete hroute target htarget
        exact ⟨hgood, hgood, emits_scanDir_names hclosed hdir⟩

/-- Every directory is empty, `stat` answers `status`, and an array that is
not written holds `array`. -/
def probe (status : Option FileStatus) (array : Bytes) : Environment where
  status := fun _ _ => status
  entries := fun _ _ => some []
  staleBytes := fun _ i => array.getD i 0

theorem staleArray_probe {status : Option FileStatus} {array : Bytes}
    (harray : array.length = 100) (before : List SysCall) :
    (probe status array).staleArray before = array := by
  unfold Environment.staleArray probe
  apply List.ext_getElem
  · rw [List.length_ofFn, harray]
  · intro i hi hi'
    rw [List.getElem_ofFn]
    change array.getD i 0 = array[i]
    rw [List.getD_eq_getElem?_getD,
      List.getElem?_eq_getElem hi', Option.getD_some]

theorem scanDir_probe {status : Option FileStatus} {array path : Bytes}
    (harray : array.length = 100) {start : Bytes × ℕ}
    (hstart : scanStart array path = .ok start) (before : List SysCall) :
    scanDir (probe status array) path before =
      ⟨.ok (), [.opendir path, .closedir path]⟩ := by
  unfold scanDir
  rw [bind_of_ok (by rfl), staleArray_probe harray,
    bind_of_ok ((lift_apply _ _).trans (by rw [hstart]))]
  rfl

theorem emits_scanDir_probe {P : SysCall → Prop} {status : Option FileStatus}
    {array path : Bytes} (harray : array.length = 100)
    (hfits : Returns (scanStart array path)) {before : List SysCall} :
    Emits P (scanDir (probe status array) path) before ↔
      P (.opendir path) ∧ P (.closedir path) := by
  obtain ⟨start, hstart⟩ := hfits
  unfold Emits
  rw [scanDir_probe harray hstart]
  simp

section Needed

variable (hall : ∀ env users res, Emits (SysCall.Names Good Template)
    (setResponseBody env ⟨workPath_, users⟩ req res) [])
  (hfit : workPath_.length + req.path_.length ≤ maxSize)

include hall hfit

theorem emits_takeRoute_needed (array : Bytes) (users : Users)
    (res : HttpResponse) {route : Route} (hroute : routeOf req.path_ = .ok route) :
    Emits (SysCall.Names Good Template)
      (takeRoute (probe none array) ⟨workPath_, users⟩ req
        (workPath_ ++ req.path_) res route)
      [.stat (workPath_ ++ req.path_)] := by
  have hbody := emits_setResponseBody.mp (hall (probe none array) users res) _
    (concat_eq_ok.mpr ⟨hfit, rfl⟩)
  exact hbody.2.2 rfl route hroute

theorem listing_needed (res : HttpResponse) (hroot : (cstr req.path_).length ≠ 1)
    (hfits : FitsArray (workPath_ ++ req.path_)) :
    Good (cstr (showPath (workPath_ ++ req.path_))) ∧ Template filelistPath := by
  obtain ⟨array, harray, start, hstart⟩ := hfits
  let directory : FileStatus := ⟨.directory, 0, by decide⟩
  have hbody := emits_setResponseBody.mp
    (hall (probe (some directory) array) ∅ res) _ (concat_eq_ok.mpr ⟨hfit, rfl⟩)
  have hlist := hbody.2.1 directory rfl
  unfold sendExisting at hlist
  have hpage := (emits_sendDirectory.mp hlist hroot).2 ()
    (by rw [scanDir_probe harray hstart])
  have hopens := emits_fileListPage.mp hpage
  exact ⟨hopens.1, hopens.2 (by simp [probe])⟩

theorem namedPaths_needed (res : HttpResponse) :
    NamedPaths Good Template workPath_ req where
  static := (emits_setResponseBody.mp (hall {} ∅ res) _
    (concat_eq_ok.mpr ⟨hfit, rfl⟩)).1
  listing := listing_needed hall hfit res
  login := by
    intro hroute hform
    obtain ⟨form, hform⟩ := hform
    let users : Users := Finmap.insert form.1 form.2 ∅
    have htaken := emits_takeRoute_needed hall hfit [] users res hroute
    unfold takeRoute at htaken
    rw [emits_lift_bind] at htaken
    have hlogin := htaken form hform
    rw [emits_bind_pure, emits_login] at hlogin
    have hopens := emits_fileListPage.mp (hlogin (Finmap.lookup_insert ∅))
    exact ⟨hopens.1, hopens.2 (by simp [probe])⟩
  download := by
    intro hroute target htarget
    have htaken := emits_takeRoute_needed hall hfit [] ∅ res hroute
    unfold takeRoute at htaken
    rw [emits_bind_pure, emits_download] at htaken
    exact (htaken target htarget).1
  upload := by
    intro hroute f_name hname
    have htaken (array : Bytes) :=
      emits_takeRoute_needed hall hfit array ∅ res hroute
    unfold takeRoute at htaken
    simp only [emits_bind_pure, emits_upload, emits_storeFile] at htaken
    refine ⟨(htaken [] f_name hname).1.1, fun hfits => ?_⟩
    obtain ⟨array, harray, hstart⟩ := hfits
    exact ((emits_scanDir_probe harray hstart).mp (htaken array f_name hname).2).1
  delete := by
    intro hroute target htarget
    have htaken (array : Bytes) :=
      emits_takeRoute_needed hall hfit array ∅ res hroute
    unfold takeRoute at htaken
    simp only [emits_bind_pure, emits_delete] at htaken
    refine ⟨(htaken [] target htarget).1, fun hfits => ?_⟩
    obtain ⟨array, harray, hstart⟩ := hfits
    have hscan := (htaken array target htarget).2.2
    rw [emits_scanDir_probe harray hstart] at hscan
    exact hscan.1

end Needed

/-- The paths of the calls in every file system are the named ones. -/
theorem emits_names_iff (hclosed : EntryClosed Good) :
    (∀ env users res, Emits (SysCall.Names Good Template)
        (setResponseBody env ⟨workPath_, users⟩ req res) []) ↔
      (workPath_.length + req.path_.length ≤ maxSize →
        NamedPaths Good Template workPath_ req) := by
  constructor
  · intro hall hfit
    exact namedPaths_needed hall hfit { closeConnection_ := false }
  · intro hnamed env users res
    exact NamedPaths.emits hclosed env users res [] hnamed

end Every

end MyFileServer
