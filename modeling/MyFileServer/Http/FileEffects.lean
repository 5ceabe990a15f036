import MyFileServer.Http.HandlerCalls

/-!
# Which files a request changes

A request may remove the file that the path of a delete names, and the path
`/upload` may create or write one.  `NamesChangedFile` says when the two
routes that change files keep to this; every other route changes nothing.
-/

namespace MyFileServer

open Execution CallLog Delimiter

/-- A call changes only what its route may change: `delete` removes the file
that its path names, and only an upload creates or writes. -/
def SysCall.Permitted (workPath_ m_url : Bytes) : SysCall → Prop
  | .remove target =>
      ∃ p, m_url = ascii "/delete/" ++ p ∧ target = workPath_ ++ ascii "/" ++ p
  | .ofstream _ opened => opened = true → m_url = ascii "/upload"
  | .write _ _ => m_url = ascii "/upload"
  | _ => True

def SysCall.Changes : SysCall → Prop
  | .remove _ | .ofstream _ _ | .write _ _ => True
  | _ => False

theorem SysCall.permitted_of_not_changes {workPath_ m_url : Bytes}
    {call : SysCall} (hcall : ¬ call.Changes) : call.Permitted workPath_ m_url := by
  cases call <;> simp_all [SysCall.Changes, SysCall.Permitted]

/-! ## Functions that change nothing -/

def KeepsFiles {α : Type} (x : Sys α) : Prop :=
  ∀ before, Emits (fun call => ¬ call.Changes) x before

section Keep

variable {env : Environment}

theorem keepsFiles_scanDir (path : Bytes) : KeepsFiles (scanDir env path) :=
  emits_scanDir_of_reads (fun _ => id) (fun _ => id) (fun _ => id) path

theorem keepsFiles_fileListPage (dirName : Bytes) (row : Bytes → Bytes) :
    KeepsFiles (fileListPage env dirName row) := by
  intro before
  rw [emits_fileListPage]
  exact ⟨id, fun _ => id⟩

theorem keepsFiles_sendExisting (req : HttpRequest) (path : Bytes)
    (buffer : FileStatus) (res : HttpResponse) :
    KeepsFiles (sendExisting env req path buffer res) := by
  intro before
  unfold sendExisting
  cases buffer.kind with
  | directory =>
      rw [emits_sendDirectory]
      intro _
      exact ⟨keepsFiles_scanDir _ _, fun _ _ => keepsFiles_fileListPage _ _ _⟩
  | regular =>
      rw [emits_sendRegular]
      exact ⟨id, fun _ _ _ => id⟩
  | other => simp

theorem keepsFiles_takeRoute (server : FileServer) (req : HttpRequest)
    (path : Bytes) (res : HttpResponse) {route : Route}
    (hupload : route ≠ .upload) (hdelete : route ≠ .delete) :
    KeepsFiles (takeRoute env server req path res route) := by
  intro before
  cases route with
  | signUp => simp [takeRoute]
  | signIn => simp [takeRoute]
  | notFound => simp [takeRoute]
  | login =>
      unfold takeRoute
      simp only [emits_lift_bind, emits_bind_pure, emits_login]
      exact fun _ _ _ => keepsFiles_fileListPage _ _ _
  | register =>
      unfold takeRoute
      simp only [emits_lift_bind, emits_register]
      exact fun _ _ _ _ => id
  | download =>
      unfold takeRoute
      simp only [emits_bind_pure, emits_download]
      exact fun _ _ => ⟨id, id⟩
  | upload => exact absurd rfl hupload
  | delete => exact absurd rfl hdelete

end Keep

/-! ## The target of a delete -/

theorem take_eq_iff {s t : Bytes} (ht : t ≠ []) (n : ℕ) :
    (s ++ t).take n = s ↔ n = s.length := by
  have hpos := List.length_pos_iff.mpr ht
  constructor
  · intro htake
    have hlength := congrArg List.length htake
    simp only [List.length_take, List.length_append] at hlength
    omega
  · intro hn
    rw [hn, List.take_left]

section Word

variable {word : Bytes} (hne : word ≠ []) (hslash : chr '/' ∉ word)

include hne hslash

/-- The first occurrence of the word in the whole path is the one of the
request exactly when the work path has none. -/
theorem find_word_eq_iff (workPath_ rest : Bytes) :
    find (workPath_ ++ ascii "/" ++ word ++ rest) word =
        (workPath_ ++ ascii "/").length ↔ Free word workPath_ := by
  rw [find_of_occurrence hne]
  constructor
  · intro heq hoccurs
    obtain ⟨front, back, rfl⟩ := hoccurs
    have hle := search_le_of_occurrence hne front (back ++ ascii "/" ++ word ++ rest)
    simp only [List.append_assoc] at heq hle
    rw [heq] at hle
    simp only [List.length_append] at hle
    have hpos := List.length_pos_iff.mpr hne
    omega
  · intro hfree
    have htext : workPath_ ++ ascii "/" ++ word ++ rest =
        workPath_ ++ chr '/' :: (word ++ rest) := by
      simp [ascii]
    rw [htext, search_behind hne hslash hfree rest, List.length_append]
    rfl

/-- What a route keeps in front of its word. -/
theorem take_word_eq_iff {workPath_ : Bytes} (hfit : workPath_.length + 1 < 2 ^ 63)
    (rest : Bytes) :
    (workPath_ ++ ascii "/" ++ word ++ rest).take
        (toSizeT (toInt (find (workPath_ ++ ascii "/" ++ word ++ rest) word))) =
          workPath_ ++ ascii "/" ↔
      Free word workPath_ ∧ workPath_.length + 1 < 2 ^ 31 := by
  have hlength : (workPath_ ++ ascii "/").length = workPath_.length + 1 := by
    simp [ascii]
  have hfound := search_le_of_occurrence hne (workPath_ ++ ascii "/") rest
  rw [← find_of_occurrence hne, hlength] at hfound
  have htail : word ++ rest ≠ [] := List.append_ne_nil_of_left_ne_nil hne rest
  rw [List.append_assoc _ word, take_eq_iff htail, ← List.append_assoc _ word, hlength,
    toSizeT_toInt_eq_iff hfound hfit, ← hlength, find_word_eq_iff hne hslash]

end Word

theorem deletePath_eq_ok {path m_url target : Bytes} :
    deletePath path m_url = .ok target ↔
      8 ≤ m_url.length ∧
        target = path.take (toSizeT (toInt (find path (ascii "delete")))) ++
          m_url.drop 8 :=
  substr_append_eq_ok

/-- What the path `/delete/p` removes. -/
theorem deletePath_eq_iff {workPath_ p : Bytes}
    (hfit : workPath_.length + (ascii "/delete/" ++ p).length ≤ maxSize) :
    deletePath (workPath_ ++ (ascii "/delete/" ++ p)) (ascii "/delete/" ++ p) =
        .ok (workPath_ ++ ascii "/" ++ p) ↔
      Free (ascii "delete") workPath_ ∧ workPath_.length + 1 < 2 ^ 31 := by
  have hpath : workPath_ ++ (ascii "/delete/" ++ p) =
      workPath_ ++ ascii "/" ++ ascii "delete" ++ (ascii "/" ++ p) := by
    simp [ascii]
  have hdrop : (ascii "/delete/" ++ p).drop 8 = p := rfl
  have hlong : 8 ≤ (ascii "/delete/" ++ p).length := by
    simp [ascii]
  have hbound := maxSize_lt_off64
  rw [deletePath_eq_ok, hdrop, List.append_left_inj, hpath,
    eq_comm (a := workPath_ ++ ascii "/"),
    take_word_eq_iff (by decide) (by decide) (by omega)]
  exact and_iff_right hlong

/-! ## What a request changes -/

/-- The route of an upload or a delete changes the file that it may change. -/
structure NamesChangedFile (env : Environment) (before : List SysCall)
    (workPath_ : Bytes) (req : HttpRequest) : Prop where
  /-- An upload under another path creates nothing. -/
  upload : routeOf req.path_ = .ok .upload → req.path_ ≠ ascii "/upload" →
    ∀ f_name, uploadName req = .ok f_name →
      env.creates (before ++ [.stat (workPath_ ++ req.path_)])
        (cstr (uploadDir (workPath_ ++ req.path_) req ++ f_name)) = false
  delete : routeOf req.path_ = .ok .delete → 8 ≤ req.path_.length →
    ascii "/delete/" <+: req.path_ ∧ Free (ascii "delete") workPath_ ∧
      workPath_.length + 1 < 2 ^ 31

section Changes

variable {env : Environment} {before : List SysCall} {server : FileServer}
  {req : HttpRequest} {res : HttpResponse}

theorem emits_upload_permitted (path : Bytes) :
    Emits (SysCall.Permitted server.workPath_ req.path_)
        (upload env req path res) before ↔
      (req.path_ ≠ ascii "/upload" → ∀ f_name, uploadName req = .ok f_name →
        env.creates before (cstr (uploadDir path req ++ f_name)) = false) := by
  rw [emits_upload]
  simp only [emits_storeFile, SysCall.Permitted]
  constructor
  · intro hall hother f_name hname
    by_contra hcreates
    rw [Bool.not_eq_false] at hcreates
    exact hother ((hall f_name hname).1.1 hcreates)
  · intro hnone f_name hname
    refine ⟨?_, (keepsFiles_scanDir _ _).mono
      fun call => SysCall.permitted_of_not_changes⟩
    by_cases hpath : req.path_ = ascii "/upload"
    · exact ⟨fun _ => hpath, fun _ => hpath⟩
    · rw [hnone hpath f_name hname]
      simp

theorem emits_delete_permitted
    (hfit : server.workPath_.length + req.path_.length ≤ maxSize) :
    Emits (SysCall.Permitted server.workPath_ req.path_)
        (delete env req (server.workPath_ ++ req.path_) res) before ↔
      (8 ≤ req.path_.length →
        ascii "/delete/" <+: req.path_ ∧
          Free (ascii "delete") server.workPath_ ∧
            server.workPath_.length + 1 < 2 ^ 31) := by
  rw [emits_delete]
  constructor
  · intro hall hlong
    obtain ⟨_, hremove, _⟩ := hall _ (deletePath_eq_ok.mpr ⟨hlong, rfl⟩)
    obtain ⟨p, hpath, htarget⟩ := hremove
    rw [hpath] at hfit htarget hlong
    refine ⟨⟨p, hpath.symm⟩, ?_⟩
    rw [← deletePath_eq_iff hfit, deletePath_eq_ok]
    exact ⟨hlong, htarget.symm⟩
  · intro hnamed target htarget
    refine ⟨trivial, ?_, (keepsFiles_scanDir _ _).mono
      fun call => SysCall.permitted_of_not_changes⟩
    obtain ⟨⟨p, hpath⟩, hwork⟩ := hnamed (deletePath_eq_ok.mp htarget).1
    rw [← hpath] at hfit htarget
    rw [(deletePath_eq_iff hfit).mpr hwork] at htarget
    exact ⟨p, hpath.symm, (Except.ok.inj htarget).symm⟩

/-- A request changes only the file that it may change, exactly when the file
of its path exists or its route names the changed file. -/
theorem setResponseBody_permitted_iff :
    Emits (SysCall.Permitted server.workPath_ req.path_)
        (setResponseBody env server req res) before ↔
      (server.workPath_.length + req.path_.length ≤ maxSize →
        env.status before (cstr (server.workPath_ ++ req.path_)) = none →
          NamesChangedFile env before server.workPath_ req) := by
  rw [emits_setResponseBody]
  simp only [concat_eq_ok]
  constructor
  · intro hall hfit hmissing
    obtain ⟨_, _, hroute⟩ := hall _ ⟨hfit, rfl⟩
    constructor
    · intro hupload
      have htaken := hroute hmissing _ hupload
      unfold takeRoute at htaken
      rwa [emits_bind_pure, emits_upload_permitted] at htaken
    · intro hdelete
      have htaken := hroute hmissing _ hdelete
      unfold takeRoute at htaken
      rwa [emits_bind_pure, emits_delete_permitted hfit] at htaken
  · intro hnamed path hpath
    obtain ⟨hfit, rfl⟩ := hpath
    refine ⟨trivial, ?_, ?_⟩
    · intro buffer _
      exact (keepsFiles_sendExisting _ _ _ _ _).mono
        fun call => SysCall.permitted_of_not_changes
    · intro hmissing route hroute
      have hcase := hnamed hfit hmissing
      by_cases hupload : route = .upload
      · subst hupload
        unfold takeRoute
        rw [emits_bind_pure, emits_upload_permitted]
        exact hcase.upload hroute
      by_cases hdelete : route = .delete
      · subst hdelete
        unfold takeRoute
        rw [emits_bind_pure, emits_delete_permitted hfit]
        exact hcase.delete hroute
      exact (keepsFiles_takeRoute _ _ _ _ hupload hdelete _).mono
        fun call => SysCall.permitted_of_not_changes

end Changes

/-- With the work path `/srv/deleted` the path `/delete/a.txt` removes
`/srv/a.txt`. -/
theorem delete_outside_work_path :
    let server : FileServer := { workPath_ := ascii "/srv/deleted" }
    let req : HttpRequest := { path_ := ascii "/delete/a.txt" }
    ¬ Emits (SysCall.Permitted server.workPath_ req.path_)
      (setResponseBody {} server req { closeConnection_ := false }) [] := by
  intro server req hall
  have hfit : server.workPath_.length + req.path_.length ≤ maxSize :=
    (lt_maxSize (by decide)).le
  obtain ⟨_, _, hroute⟩ :=
    emits_setResponseBody.mp hall _ (concat_eq_ok.mpr ⟨hfit, rfl⟩)
  have htaken := hroute rfl .delete (by decide)
  unfold takeRoute at htaken
  rw [emits_bind_pure, emits_delete] at htaken
  obtain ⟨_, hremove, _⟩ := htaken (ascii "/srv/a.txt") (by decide)
  obtain ⟨p, _, htarget⟩ := hremove
  have hprefix : server.workPath_ ++ ascii "/" <+: ascii "/srv/a.txt" :=
    ⟨p, htarget.symm⟩
  exact absurd hprefix (by decide)

end MyFileServer
