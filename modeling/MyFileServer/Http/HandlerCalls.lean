import MyFileServer.Http.Handler

/-!
# The calls of the handler

For every function of the handler, which calls it makes, as an equivalence:
all of them have a property exactly when each of the named ones has it.
-/

namespace MyFileServer

open Execution CallLog

variable {P : SysCall → Prop} {env : Environment} {before : List SysCall}

section Primitives

variable {α : Type}

theorem emits_stat_bind {path : Bytes} {f : Option FileStatus → Sys α} :
    Emits P (env.stat path >>= f) before ↔
      P (.stat path) ∧
        Emits P (f (env.status before (cstr path))) (before ++ [.stat path]) :=
  emits_perform_bind

theorem emits_openFile_bind {path : Bytes} {f : ℤ → Sys α} :
    Emits P (env.openFile path >>= f) before ↔
      P (.openFile path) ∧
        Emits P (f (env.descriptor before (cstr path)))
          (before ++ [.openFile path]) :=
  emits_perform_bind

theorem emits_opendir_bind {path : Bytes} {f : Option (List EntryName) → Sys α} :
    Emits P (env.opendir path >>= f) before ↔
      P (.opendir path) ∧
        Emits P (f (env.entries before (cstr path))) (before ++ [.opendir path]) :=
  emits_perform_bind

theorem emits_ifstream_bind {path : Bytes} {f : Option Bytes → Sys α} :
    Emits P (env.ifstream path >>= f) before ↔
      P (.ifstream path) ∧
        Emits P (f (env.content before (cstr path)))
          (before ++ [.ifstream path]) :=
  emits_perform_bind

theorem emits_ofstream_bind {path : Bytes} {f : Bool → Sys α} :
    Emits P (env.ofstream path >>= f) before ↔
      P (.ofstream path (env.creates before (cstr path))) ∧
        Emits P (f (env.creates before (cstr path)))
          (before ++ [.ofstream path (env.creates before (cstr path))]) :=
  emits_perform_bind

theorem emits_removeFile_bind {path : Bytes} {f : Unit → Sys α} :
    Emits P (removeFile path >>= f) before ↔
      P (.remove path) ∧ Emits P (f ()) (before ++ [.remove path]) :=
  emits_perform_bind

@[simp] theorem emits_writeFile {path content : Bytes} :
    Emits P (writeFile path content) before ↔ P (.write path content) :=
  emits_perform _ _

@[simp] theorem emits_openFile {path : Bytes} :
    Emits P (env.openFile path) before ↔ P (.openFile path) :=
  emits_perform _ _

@[simp] theorem emits_update {sql : Bytes} :
    Emits P (env.update sql) before ↔ P (.update sql) :=
  emits_perform _ _

@[simp] theorem emits_closedir {path : Bytes} :
    Emits P (closedir path) before ↔ P (.closedir path) :=
  emits_perform _ _

@[simp] theorem emits_lseek {fd offset : ℤ} :
    Emits P (lseek fd offset) before ↔ P (.lseek fd offset) :=
  emits_perform _ _

end Primitives

/-! ## Listings -/

theorem emits_scanEntries_cons {n : ℕ} {fullname : Bytes} {entry : EntryName}
    {entries : List EntryName} :
    Emits P (scanEntries env n fullname (entry :: entries)) before ↔
      if entry.1 = dot ∨ entry.1 = dotdot then
        Emits P (scanEntries env n fullname entries) before
      else
        ∀ copied, strcpy fullname n entry.1 = .ok copied →
          P (.stat copied) ∧
            Emits P (scanEntries env n copied entries)
              (before ++ [.stat copied]) := by
  simp only [scanEntries]
  split
  next => rfl
  next =>
    rw [emits_lift_bind]
    refine forall_congr' fun copied => imp_congr_right fun _ => ?_
    rw [emits_stat_bind]

theorem emits_scanDir {path : Bytes} :
    Emits P (scanDir env path) before ↔
      ∀ start, scanStart (env.staleArray before) path = .ok start →
        P (.opendir path) ∧
          ∀ entries, env.entries before (cstr path) = some entries →
            Emits P (scanEntries env start.2 start.1 entries)
                (before ++ [.opendir path]) ∧
              (Returns (scanEntries env start.2 start.1 entries
                  (before ++ [.opendir path])).result →
                P (.closedir path)) := by
  unfold scanDir
  rw [emits_history_bind, emits_lift_bind]
  simp only [emits_opendir_bind]
  cases env.entries before (cstr path) with
  | none => simp
  | some entries => simp [emits_bind, Returns]

/-- The walk of a directory only looks at names. -/
theorem emits_scanDir_of_reads (hstat : ∀ path, P (.stat path))
    (hopendir : ∀ path, P (.opendir path)) (hclosedir : ∀ path, P (.closedir path))
    (path : Bytes) (before : List SysCall) : Emits P (scanDir env path) before := by
  have hentries : ∀ (n : ℕ) (fullname : Bytes) (entries : List EntryName)
      (before : List SysCall), Emits P (scanEntries env n fullname entries) before := by
    intro n fullname entries
    induction entries generalizing fullname with
    | nil => simp [scanEntries]
    | cons entry entries ih =>
        intro before
        rw [emits_scanEntries_cons]
        split
        · exact ih fullname before
        · exact fun copied _ => ⟨hstat copied, ih copied _⟩
  rw [emits_scanDir]
  exact fun start _ =>
    ⟨hopendir path, fun entries _ => ⟨hentries _ _ _ _, fun _ => hclosedir path⟩⟩

theorem emits_fileListPage {dirName : Bytes} {row : Bytes → Bytes} :
    Emits P (fileListPage env dirName row) before ↔
      P (.opendir dirName) ∧
        (env.entries before (cstr dirName) ≠ none → P (.ifstream filelistPath)) := by
  unfold fileListPage getFileVec
  rw [bind_assoc, emits_opendir_bind]
  cases env.entries before (cstr dirName) with
  | none =>
      rw [emits_lift_bind]
      simp
  | some entries =>
      rw [pure_bind, emits_ifstream_bind]
      simp

/-! ## Files under the work path -/

section Existing

variable {req : HttpRequest} {path : Bytes} {res : HttpResponse}

theorem emits_sendDirectory :
    Emits P (sendDirectory env req path res) before ↔
      ((cstr req.path_).length ≠ 1 →
        Emits P (scanDir env path) before ∧
          ∀ scanned, (scanDir env path before).result = .ok scanned →
            Emits P (getFileListPage env (showPath path) req.path_)
              (before ++ (scanDir env path before).calls)) := by
  unfold sendDirectory
  split
  next hroot => simp [hroot]
  next hroot =>
    rw [emits_bind]
    simp only [emits_bind_pure]
    simp [hroot]

theorem emits_sendRegular {len : ℤ} :
    Emits P (sendRegular env req path len res) before ↔
      P (.openFile path) ∧
        (req.getHeader (ascii "Range") ≠ [] → ∀ bounds,
          parseRange (req.getHeader (ascii "Range")) len = .ok bounds →
            P (.lseek (env.descriptor before (cstr path)) bounds.1)) := by
  unfold sendRegular sendRange
  rw [emits_openFile_bind]
  simp only [ne_eq]
  split
  next hrange => simp [emits_lift_bind, hrange]
  next hrange => simp [hrange]

end Existing

/-! ## Routes -/

section Routes

variable {server : FileServer} {req : HttpRequest} {path : Bytes}
  {res : HttpResponse}

theorem emits_register {name password : Bytes} :
    Emits P (register env server name password res) before ↔
      ∀ sql, sqlInsert name password = .ok sql → P (.update sql) := by
  unfold register
  rw [emits_lift_bind]
  simp

theorem emits_login {name password : Bytes} :
    Emits P (login env server name password res) before ↔
      (server.users.lookup name = some password →
        Emits P (getRootListPage env server.workPath_) before) := by
  unfold login
  split
  next hknown => simp [hknown]
  next hunknown => simp [hunknown]

theorem emits_download :
    Emits P (download env req path res) before ↔
      ∀ target, downloadPath path req.path_ = .ok target →
        P (.stat target) ∧ P (.openFile target) := by
  unfold download statSize
  rw [emits_lift_bind]
  refine forall_congr' fun target => imp_congr_right fun _ => ?_
  rw [bind_assoc, emits_history_bind, bind_assoc, emits_stat_bind]
  cases env.status before (cstr target) <;>
    simp [pure_bind]

theorem emits_storeFile {content : Bytes} :
    Emits P (storeFile env path content) before ↔
      P (.ofstream path (env.creates before (cstr path))) ∧
        (env.creates before (cstr path) = true → P (.write path content)) := by
  unfold storeFile
  rw [emits_ofstream_bind]
  cases env.creates before (cstr path) <;> simp

theorem storeFile_result {content : Bytes} :
    (storeFile env path content before).result = .ok () := by
  unfold storeFile
  refine bind_result_eq_ok.mpr ⟨env.creates before (cstr path), rfl, ?_⟩
  cases env.creates before (cstr path) <;> rfl

theorem emits_upload :
    Emits P (upload env req path res) before ↔
      ∀ f_name, uploadName req = .ok f_name →
        Emits P (storeFile env (uploadDir path req ++ f_name)
            (uploadContent req.m_string)) before ∧
          Emits P (scanDir env (uploadDir path req))
            (before ++ (storeFile env (uploadDir path req ++ f_name)
              (uploadContent req.m_string) before).calls) := by
  unfold upload
  rw [emits_lift_bind]
  refine forall_congr' fun f_name => imp_congr_right fun _ => ?_
  rw [emits_bind]
  simp [storeFile_result]

theorem emits_delete :
    Emits P (delete env req path res) before ↔
      ∀ target, deletePath path req.path_ = .ok target →
        P (.stat target) ∧ P (.remove target) ∧
          Emits P (scanDir env (parentDir target))
            (before ++ [.stat target] ++ [.remove target]) := by
  unfold delete
  rw [emits_lift_bind]
  refine forall_congr' fun target => imp_congr_right fun _ => ?_
  rw [emits_stat_bind, emits_removeFile_bind, emits_bind_pure]

/-- The file that the path names, and a route when there is none. -/
theorem emits_setResponseBody :
    Emits P (setResponseBody env server req res) before ↔
      ∀ path, concat server.workPath_ req.path_ = .ok path →
        P (.stat path) ∧
          (∀ buffer, env.status before (cstr path) = some buffer →
            Emits P (sendExisting env req path buffer res)
              (before ++ [.stat path])) ∧
          (env.status before (cstr path) = none →
            ∀ route, routeOf req.path_ = .ok route →
              Emits P (takeRoute env server req path res route)
                (before ++ [.stat path])) := by
  unfold setResponseBody
  rw [emits_lift_bind]
  refine forall_congr' fun path => imp_congr_right fun _ => ?_
  rw [emits_stat_bind]
  cases env.status before (cstr path) with
  | none => simp [emits_lift_bind]
  | some buffer => simp

end Routes

/-! ## The two cases of a request -/

section Cases

variable {env : Environment} {before : List SysCall} {server : FileServer}
  {req : HttpRequest} {res : HttpResponse}


theorem setResponseBody_of_some {buffer : FileStatus}
    (hfit : server.workPath_.length + req.path_.length ≤ maxSize)
    (hstatus : env.status before (cstr (server.workPath_ ++ req.path_)) = some buffer) :
    setResponseBody env server req res before =
      ⟨(fun response => (server, response)) <$>
          (sendExisting env req (server.workPath_ ++ req.path_) buffer res
            (before ++ [.stat (server.workPath_ ++ req.path_)])).result,
        .stat (server.workPath_ ++ req.path_) ::
          (sendExisting env req (server.workPath_ ++ req.path_) buffer res
            (before ++ [.stat (server.workPath_ ++ req.path_)])).calls⟩ := by
  have hconcat : concat server.workPath_ req.path_ =
      .ok (server.workPath_ ++ req.path_) :=
    concat_eq_ok.mpr ⟨hfit, rfl⟩
  unfold setResponseBody Environment.stat
  rw [hconcat, lift_ok_bind, perform_bind, hstatus]
  dsimp only
  rw [bind_pure_apply]

theorem setResponseBody_of_none {route : Route}
    (hfit : server.workPath_.length + req.path_.length ≤ maxSize)
    (hstatus : env.status before (cstr (server.workPath_ ++ req.path_)) = none)
    (hroute : routeOf req.path_ = .ok route) :
    setResponseBody env server req res before =
      ⟨(takeRoute env server req (server.workPath_ ++ req.path_) res route
          (before ++ [.stat (server.workPath_ ++ req.path_)])).result,
        .stat (server.workPath_ ++ req.path_) ::
          (takeRoute env server req (server.workPath_ ++ req.path_) res route
            (before ++ [.stat (server.workPath_ ++ req.path_)])).calls⟩ := by
  have hconcat : concat server.workPath_ req.path_ =
      .ok (server.workPath_ ++ req.path_) :=
    concat_eq_ok.mpr ⟨hfit, rfl⟩
  unfold setResponseBody Environment.stat
  rw [hconcat, lift_ok_bind, perform_bind, hstatus, hroute]
  dsimp only
  rw [lift_ok_bind]

end Cases
end MyFileServer
