import MyFileServer.Http.FileEffects
import MyFileServer.Http.FixedArrays
import MyFileServer.Http.ListingPage
import MyFileServer.Http.RangeResponses

/-!
# When the handler returns

The functions of the handler have about ten places where a short path, an odd
header or a missing file ends the server.  For each function the condition
under which it returns, and from them the condition for a request.
-/

namespace MyFileServer

open Execution CallLog Delimiter

/-! ## The header of a range -/

/-- What stands in front of the first dash behind the unit, and behind it. -/
def rangeParts (range : Bytes) : List Bytes :=
  [(range.drop 6).takeWhile (· ≠ chr '-'), ((range.drop 6).dropWhile (· ≠ chr '-')).tail]

/-- The header has a unit of six bytes, and each part is empty or an `int`. -/
def RangeReads (range : Bytes) : Prop :=
  6 ≤ range.length ∧ ∀ part ∈ rangeParts range, part ≠ [] → NamesInt part

theorem parseRange_cut_returns_iff {unit front back : Bytes} (hunit : unit.length = 6)
    (hfront : chr '-' ∉ front)
    (hfit : (unit ++ front ++ ascii "-" ++ back).length ≤ maxSize) (len : ℤ) :
    Returns (parseRange (unit ++ front ++ ascii "-" ++ back) len) ↔
      (front ≠ [] → NamesInt front) ∧ (back ≠ [] → NamesInt back) := by
  rw [parseRange_of_cut hunit hfront hfit, ← stoi_returns_iff, ← stoi_returns_iff]
  by_cases hbeg : front = []
  · by_cases hend : back = []
    · simp [hbeg, hend]
    · rw [if_neg (by simp [hbeg]), if_neg (by simp [hbeg]), if_pos hend, bind_pure_comp,
        returns_map]
      simp [hbeg, hend]
  · by_cases hend : back = []
    · rw [if_neg (by simp [hend]), if_pos hbeg, bind_pure_comp, returns_map]
      simp [hbeg, hend]
    · rw [if_pos ⟨hbeg, hend⟩, returns_bind]
      simp only [bind_pure_comp, returns_map]
      simp only [hbeg, hend, ne_eq, not_false_eq_true, forall_const]
      exact exists_and_right

/-- Without a dash both numbers are the whole text. -/
theorem parseRange_whole_returns_iff {unit value : Bytes} (hunit : unit.length = 6)
    (hdash : chr '-' ∉ value) (hfit : (unit ++ value).length ≤ maxSize) (len : ℤ) :
    Returns (parseRange (unit ++ value) len) ↔ (value ≠ [] → NamesInt value) := by
  have hbound := maxSize_lt
  rw [List.length_append] at hfit
  have hvalue : substr (unit ++ value) 6 = .ok value :=
    substr_eq_ok.mpr ⟨by simp [hunit], (List.drop_left' hunit).symm⟩
  have hpos : find value (ascii "-") = npos := by
    have hfree : Free (ascii "-") value := free_of_notMem (by decide) hdash
    have hsearch := (search_eq_length_iff (by decide) value).mpr hfree
    unfold find
    rw [hsearch]
    simp
  have hbeg : value.take npos = value := by
    apply List.take_of_length_le
    unfold npos
    omega
  have hnext : addSizeT npos 1 = 0 := rfl
  have hend : substr value 0 = .ok value := substr_eq_ok.mpr ⟨Nat.zero_le _, rfl⟩
  unfold parseRange
  rw [hvalue]
  change Returns (substr value (addSizeT (find value (ascii "-")) 1) >>= _) ↔ _
  rw [hpos, hnext, hend, hbeg, ← stoi_returns_iff]
  change Returns (if value ≠ [] ∧ value ≠ [] then _ else _) ↔ _
  by_cases hempty : value = []
  · simp [hempty]
  · rw [if_pos ⟨hempty, hempty⟩, returns_bind]
    simp only [bind_pure_comp, returns_map]
    simp only [hempty, ne_eq, not_false_eq_true, forall_const]
    exact exists_and_right.trans and_self_iff

theorem parseRange_returns_iff {range : Bytes} (hfit : range.length ≤ maxSize) (len : ℤ) :
    Returns (parseRange range len) ↔ RangeReads range := by
  unfold RangeReads rangeParts
  simp only [List.forall_mem_cons, List.not_mem_nil, false_implies, implies_true, and_true]
  by_cases hunit : 6 ≤ range.length
  · rw [and_iff_right hunit]
    have hsplit : range = range.take 6 ++ range.drop 6 := (List.take_append_drop 6 range).symm
    have hsix : (range.take 6).length = 6 := by simp [hunit]
    generalize range.take 6 = unit at hsplit hsix
    generalize range.drop 6 = value at hsplit ⊢
    subst hsplit
    by_cases hdash : chr '-' ∈ value
    · obtain ⟨front, back, rfl, hfront⟩ := List.eq_append_cons_of_mem hdash
      have hshape : unit ++ (front ++ chr '-' :: back) = unit ++ front ++ ascii "-" ++ back := by
        simp [ascii]
      rw [hshape] at hfit ⊢
      rw [takeWhile_ne_cons hfront, dropWhile_ne_cons hfront, List.tail_cons]
      exact parseRange_cut_returns_iff hsix hfront hfit len
    · rw [takeWhile_ne_self hdash, dropWhile_ne_self hdash, List.tail_nil,
        and_iff_left (fun h => absurd rfl h)]
      exact parseRange_whole_returns_iff hsix hdash hfit len
  · rw [iff_false_intro (fun h : _ ∧ _ => hunit h.1)]
    apply iff_false_intro
    intro h
    obtain ⟨value, hvalue, _⟩ := returns_bind.mp h
    exact hunit (substr_eq_ok.mp hvalue).1

/-! ## Computations that make calls -/

section Steps

variable {α β : Type} {before : List SysCall}

theorem returns_bind_sys {x : Sys α} {f : α → Sys β} :
    Returns ((x >>= f) before).result ↔
      ∃ a, (x before).result = .ok a ∧ Returns (f a (before ++ (x before).calls)).result := by
  unfold Returns
  simp only [bind_result_eq_ok]
  constructor
  · intro h
    obtain ⟨b, a, ha, hb⟩ := h
    exact ⟨a, ha, b, hb⟩
  · intro h
    obtain ⟨a, ha, b, hb⟩ := h
    exact ⟨b, a, ha, hb⟩

theorem returns_lift_bind {x : Exec α} {f : α → Sys β} :
    Returns (((lift x : Sys α) >>= f) before).result ↔
      ∃ a, x = .ok a ∧ Returns (f a before).result := by
  rw [returns_bind_sys]
  simp

theorem returns_bind_pure {x : Sys α} {g : α → β} :
    Returns ((x >>= fun a => pure (g a)) before).result ↔ Returns (x before).result := by
  rw [bind_pure_apply]
  exact returns_map

theorem returns_unit_bind {x : Sys Unit} {f : Unit → Sys β} :
    Returns ((x >>= f) before).result ↔
      Returns (x before).result ∧ Returns (f () (before ++ (x before).calls)).result := by
  rw [returns_bind_sys]
  constructor
  · intro h
    obtain ⟨_, hx, hf⟩ := h
    exact ⟨⟨_, hx⟩, hf⟩
  · intro h
    obtain ⟨⟨_, hx⟩, hf⟩ := h
    exact ⟨_, hx, hf⟩

end Steps

/-! ## The pages of directories -/

/-- The directory opens, and the template has its label. -/
def ListingOpens (env : Environment) (before : List SysCall) (dirName : Bytes) : Prop :=
  ∃ entries, env.entries before (cstr dirName) = some entries ∧
    filelistLabel ∈ templateLines (templateFile env before dirName)

theorem fileListPage_returns {env : Environment} {before : List SysCall} {dirName : Bytes}
    {row : Bytes → Bytes} :
    Returns (fileListPage env dirName row before).result ↔
      ListingOpens env before dirName := by
  cases hentries : env.entries before (cstr dirName) with
  | none =>
      apply iff_of_false
      · unfold fileListPage getFileVec Environment.opendir
        rw [bind_assoc, perform_bind_result, hentries]
        exact not_returns_error _
      · intro h
        obtain ⟨entries, hopened, _⟩ := h
        rw [hentries] at hopened
        cases hopened
  | some entries =>
      rw [fileListPage_returns_iff hentries]
      unfold ListingOpens
      simp [hentries]

/-! ## Files under the work path -/

section Existing

variable {env : Environment} {before : List SysCall} {server : FileServer}
  {req : HttpRequest} {path : Bytes} {res : HttpResponse}

def ExistingReturns (env : Environment) (before : List SysCall) (req : HttpRequest)
    (path : Bytes) (buffer : FileStatus) : Prop :=
  match buffer.kind with
  | .directory => (cstr req.path_).length ≠ 1 → ScanFits env before path ∧
      ListingOpens env (before ++ (scanDir env path before).calls) (showPath path)
  | .regular => req.getHeader (ascii "Range") ≠ [] →
      RangeReads (req.getHeader (ascii "Range"))
  | .other => True

theorem sendDirectory_returns_iff :
    Returns (sendDirectory env req path res before).result ↔
      ((cstr req.path_).length ≠ 1 → ScanFits env before path ∧
        ListingOpens env (before ++ (scanDir env path before).calls) (showPath path)) := by
  unfold sendDirectory
  split
  next hroot => exact iff_of_true (returns_ok _) fun h => absurd hroot h
  next hroot =>
    rw [returns_unit_bind, returns_bind_pure, scanDir_returns_iff]
    unfold getFileListPage
    rw [fileListPage_returns]
    simp [hroot]

theorem sendRegular_returns_iff (hsized : (req.getHeader (ascii "Range")).length ≤ maxSize)
    (len : ℤ) :
    Returns (sendRegular env req path len res before).result ↔
      (req.getHeader (ascii "Range") ≠ [] →
        RangeReads (req.getHeader (ascii "Range"))) := by
  unfold sendRegular
  rw [openFile_bind_result]
  by_cases hrange : req.getHeader (ascii "Range") = []
  · rw [if_neg (not_not.mpr hrange)]
    exact iff_of_true (returns_ok _) fun h => absurd hrange h
  · rw [if_pos hrange, imp_iff_right hrange, ← parseRange_returns_iff hsized len]
    unfold sendRange
    rw [returns_lift_bind]
    constructor
    · intro h
      obtain ⟨bounds, hbounds, _⟩ := h
      exact ⟨bounds, hbounds⟩
    · intro h
      obtain ⟨bounds, hbounds⟩ := h
      exact ⟨bounds, hbounds, _, rfl⟩

theorem sendExisting_returns_iff (hsized : (req.getHeader (ascii "Range")).length ≤ maxSize)
    (buffer : FileStatus) :
    Returns (sendExisting env req path buffer res before).result ↔
      ExistingReturns env before req path buffer := by
  unfold sendExisting ExistingReturns
  cases buffer.kind with
  | directory => exact sendDirectory_returns_iff
  | regular => exact sendRegular_returns_iff hsized _
  | other => exact iff_of_true (returns_ok _) trivial

end Existing

/-! ## Routes -/

section Routes

variable {env : Environment} {before : List SysCall} {server : FileServer}
  {req : HttpRequest} {path : Bytes} {res : HttpResponse}

/-- The name of an upload starts inside the header, ten bytes behind the place
of `filename=`, which is -1 when there is none. -/
def UploadReads (disposition : Bytes) : Prop :=
  toSizeT (toInt (find disposition (ascii "filename=")) + 10) ≤ disposition.length

def RouteReturns (env : Environment) (before : List SysCall) (server : FileServer)
    (req : HttpRequest) (path : Bytes) : Route → Prop
  | .signUp => True
  | .signIn => True
  | .notFound => True
  | .login => FormFits req.m_string ∧
      (server.users.lookup (cstr (nameField req.m_string)) =
          some (passwordField req.m_string) →
        ListingOpens env before server.workPath_)
  | .register => FormFits req.m_string ∧
      (cstr (nameField req.m_string)).length + (passwordField req.m_string).length ≤ 151
  | .download => 10 ≤ req.path_.length
  | .upload => UploadReads (req.getHeader (ascii "Content-Disposition")) ∧
      ∀ f_name, uploadName req = .ok f_name →
        ScanFits env (before ++ (storeFile env (uploadDir path req ++ f_name)
          (uploadContent req.m_string) before).calls) (uploadDir path req)
  | .delete => 8 ≤ req.path_.length ∧
      ∀ target, deletePath path req.path_ = .ok target →
        ScanFits env (before ++ [.stat target] ++ [.remove target]) (parentDir target)

theorem login_returns_iff {name password : Bytes} :
    Returns (login env server name password res before).result ↔
      (server.users.lookup name = some password →
        ListingOpens env before server.workPath_) := by
  unfold login
  split
  next hknown =>
    rw [returns_bind_pure, imp_iff_right hknown]
    exact fileListPage_returns
  next hunknown => exact iff_of_true (returns_ok _) fun h => absurd h hunknown

theorem register_returns_iff {name password : Bytes} :
    Returns (register env server name password res before).result ↔
      name.length + password.length ≤ 151 := by
  rw [← sqlInsert_returns_iff]
  unfold register Environment.update
  rw [returns_lift_bind]
  constructor
  · intro h
    obtain ⟨sql, hsql, _⟩ := h
    exact ⟨sql, hsql⟩
  · intro h
    obtain ⟨sql, hsql⟩ := h
    refine ⟨sql, hsql, ?_⟩
    rw [perform_bind_result]
    exact returns_ok _

theorem download_returns_iff :
    Returns (download env req path res before).result ↔ 10 ≤ req.path_.length := by
  unfold download
  rw [returns_lift_bind]
  constructor
  · intro h
    obtain ⟨target, htarget, _⟩ := h
    obtain ⟨_, hurl, _⟩ := bind_eq_ok.mp htarget
    exact (substr_eq_ok.mp hurl).1
  · intro hlong
    have hurl : substr req.path_ 10 = .ok (req.path_.drop 10) := substr_eq_ok.mpr ⟨hlong, rfl⟩
    refine ⟨_, bind_eq_ok.mpr ⟨_, hurl, rfl⟩, ?_⟩
    rw [bind_of_ok statSize_apply, openFile_bind_result]
    exact returns_ok _

theorem uploadName_returns_iff :
    Returns (uploadName req) ↔
      UploadReads (req.getHeader (ascii "Content-Disposition")) := by
  unfold uploadName UploadReads
  rw [bind_pure_comp, returns_map]
  unfold Returns
  simp only [substr_eq_ok, exists_and_left, exists_eq, and_true]

theorem upload_returns_iff :
    Returns (upload env req path res before).result ↔
      UploadReads (req.getHeader (ascii "Content-Disposition")) ∧
        ∀ f_name, uploadName req = .ok f_name →
          ScanFits env (before ++ (storeFile env (uploadDir path req ++ f_name)
            (uploadContent req.m_string) before).calls) (uploadDir path req) := by
  unfold upload
  rw [returns_lift_bind, ← uploadName_returns_iff]
  constructor
  · intro h
    obtain ⟨f_name, hname, hrest⟩ := h
    refine ⟨⟨f_name, hname⟩, fun f_name' hname' => ?_⟩
    obtain rfl := Except.ok.inj (hname.symm.trans hname')
    rw [returns_unit_bind, returns_bind_pure, scanDir_returns_iff] at hrest
    exact hrest.2
  · intro h
    obtain ⟨⟨f_name, hname⟩, hscan⟩ := h
    refine ⟨f_name, hname, ?_⟩
    rw [returns_unit_bind, returns_bind_pure, scanDir_returns_iff]
    exact ⟨⟨_, storeFile_result⟩, hscan f_name hname⟩

theorem removeFile_bind_result {α : Type} {f : Unit → Sys α} :
    ((removeFile path >>= f) before).result = (f () (before ++ [.remove path])).result :=
  perform_bind_result

theorem stat_bind_result {α : Type} {f : Option FileStatus → Sys α} :
    ((env.stat path >>= f) before).result =
      (f (env.status before (cstr path)) (before ++ [.stat path])).result :=
  perform_bind_result

theorem removal_returns_iff (target dir : Bytes) (answer : HttpResponse) :
    Returns ((env.stat target >>= fun _ => removeFile target >>= fun _ =>
      scanDir env dir >>= fun _ => pure answer) before).result ↔
        ScanFits env (before ++ [.stat target] ++ [.remove target]) dir := by
  rw [stat_bind_result, removeFile_bind_result, returns_bind_pure, scanDir_returns_iff]

theorem delete_returns_iff :
    Returns (delete env req path res before).result ↔
      8 ≤ req.path_.length ∧ ∀ target, deletePath path req.path_ = .ok target →
        ScanFits env (before ++ [.stat target] ++ [.remove target]) (parentDir target) := by
  unfold delete
  rw [returns_lift_bind]
  constructor
  · intro h
    obtain ⟨target, htarget, hrest⟩ := h
    refine ⟨(deletePath_eq_ok.mp htarget).1, fun target' htarget' => ?_⟩
    obtain rfl := Except.ok.inj (htarget.symm.trans htarget')
    exact (removal_returns_iff target _ _).mp hrest
  · intro h
    obtain ⟨hlong, hscan⟩ := h
    have htarget : deletePath path req.path_ = .ok _ := deletePath_eq_ok.mpr ⟨hlong, rfl⟩
    exact ⟨_, htarget, (removal_returns_iff _ _ _).mpr (hscan _ htarget)⟩

theorem takeRoute_returns_iff (route : Route) :
    Returns (takeRoute env server req path res route before).result ↔
      RouteReturns env before server req path route := by
  unfold takeRoute RouteReturns
  cases route with
  | signUp => exact iff_of_true (returns_ok _) trivial
  | signIn => exact iff_of_true (returns_ok _) trivial
  | notFound => exact iff_of_true (returns_ok _) trivial
  | login =>
      simp only [returns_lift_bind, returns_bind_pure, accountForm_eq_ok, login_returns_iff]
      simp
  | register =>
      simp only [returns_lift_bind, accountForm_eq_ok, register_returns_iff]
      simp
  | download => rw [returns_bind_pure, download_returns_iff]
  | upload => rw [returns_bind_pure, upload_returns_iff]
  | delete => rw [returns_bind_pure, delete_returns_iff]

theorem routeOf_returns_iff {m_url : Bytes} : Returns (routeOf m_url) ↔ m_url ≠ [] := by
  have hfirst {c : UInt8} : charAt m_url 1 = .ok c ↔ 1 ≤ m_url.length ∧ c = m_url.getD 1 0 :=
    ite_eq_ok
  have hlength : m_url ≠ [] ↔ 1 ≤ m_url.length := List.length_pos_iff.symm
  unfold routeOf
  rw [returns_bind, hlength]
  constructor
  · intro h
    obtain ⟨c, hc, _⟩ := h
    exact (hfirst.mp hc).1
  · intro hlong
    refine ⟨_, hfirst.mpr ⟨hlong, rfl⟩, ?_⟩
    dsimp only
    split_ifs <;> exact returns_pure _

end Routes

/-! ## Requests that are answered -/

/-- What a request needs to be answered.  The conditions on the file system are
about its state when the handler looks at it. -/
structure HandlerReturns (env : Environment) (before : List SysCall) (server : FileServer)
    (req : HttpRequest) : Prop where
  fits : server.workPath_.length + req.path_.length ≤ maxSize
  existing : ∀ buffer,
    env.status before (cstr (server.workPath_ ++ req.path_)) = some buffer →
      ExistingReturns env (before ++ [.stat (server.workPath_ ++ req.path_)]) req
        (server.workPath_ ++ req.path_) buffer
  nonempty : env.status before (cstr (server.workPath_ ++ req.path_)) = none →
    req.path_ ≠ []
  routed : env.status before (cstr (server.workPath_ ++ req.path_)) = none →
    ∀ route, routeOf req.path_ = .ok route →
      RouteReturns env (before ++ [.stat (server.workPath_ ++ req.path_)]) server req
        (server.workPath_ ++ req.path_) route

theorem setResponseBody_returns_of_none {env : Environment} {before : List SysCall}
    {server : FileServer} {req : HttpRequest} {res : HttpResponse}
    (hfit : server.workPath_.length + req.path_.length ≤ maxSize)
    (hstatus : env.status before (cstr (server.workPath_ ++ req.path_)) = none) :
    Returns (setResponseBody env server req res before).result ↔
      req.path_ ≠ [] ∧ ∀ route, routeOf req.path_ = .ok route →
        RouteReturns env (before ++ [.stat (server.workPath_ ++ req.path_)]) server req
          (server.workPath_ ++ req.path_) route := by
  by_cases hempty : req.path_ = []
  · have hconcat : concat server.workPath_ req.path_ =
        .ok (server.workPath_ ++ req.path_) :=
      concat_eq_ok.mpr ⟨hfit, rfl⟩
    apply iff_of_false
    · intro hreturns
      unfold setResponseBody Environment.stat at hreturns
      rw [hconcat, lift_ok_bind, perform_bind_result, hstatus] at hreturns
      obtain ⟨route, hroute, _⟩ := returns_lift_bind.mp hreturns
      exact routeOf_returns_iff.mp ⟨route, hroute⟩ hempty
    · exact fun h => h.1 hempty
  · obtain ⟨route, hroute⟩ := routeOf_returns_iff.mpr hempty
    rw [setResponseBody_of_none hfit hstatus hroute, takeRoute_returns_iff, hroute,
      and_iff_right hempty]
    simp only [Except.ok.injEq, forall_eq']

/-- The handler returns exactly when the request and the files meet the
conditions of the functions that it runs. -/
theorem setResponseBody_returns_iff {env : Environment} {before : List SysCall}
    {server : FileServer} {req : HttpRequest} {res : HttpResponse}
    (hsized : (req.getHeader (ascii "Range")).length ≤ maxSize) :
    Returns (setResponseBody env server req res before).result ↔
      HandlerReturns env before server req := by
  by_cases hfit : server.workPath_.length + req.path_.length ≤ maxSize
  · cases hstatus : env.status before (cstr (server.workPath_ ++ req.path_)) with
    | some buffer =>
        rw [setResponseBody_of_some hfit hstatus, returns_map,
          sendExisting_returns_iff hsized]
        constructor
        · intro hexisting
          constructor
          · exact hfit
          · intro buffer' hstatus'
            obtain rfl := Option.some.inj (hstatus.symm.trans hstatus')
            exact hexisting
          · intro hnone
            rw [hstatus] at hnone
            cases hnone
          · intro hnone
            rw [hstatus] at hnone
            cases hnone
        · intro h
          exact h.existing buffer hstatus
    | none =>
        rw [setResponseBody_returns_of_none hfit hstatus]
        constructor
        · intro h
          constructor
          · exact hfit
          · intro buffer hsome
            rw [hstatus] at hsome
            cases hsome
          · exact fun _ => h.1
          · exact fun _ => h.2
        · intro h
          exact ⟨h.nonempty hstatus, h.routed hstatus⟩
  · apply iff_of_false
    · intro h
      obtain ⟨built, hbuilt⟩ := h
      unfold setResponseBody at hbuilt
      obtain ⟨path, hpath, _⟩ := lift_bind_result_eq_ok.mp hbuilt
      exact hfit (concat_eq_ok.mp hpath).1
    · exact fun h => hfit h.fits

theorem setResponseBody_returns_missing :
    Returns (setResponseBody {} missingServer missingRequest { closeConnection_ := false }
        []).result ↔
      HandlerReturns {} [] missingServer missingRequest :=
  setResponseBody_returns_iff (by
    have hnone : missingRequest.getHeader (ascii "Range") = [] := rfl
    rw [hnone]
    exact Nat.zero_le _)

/-- The path `/do` takes the route of a download, which cuts ten bytes off. -/
theorem setResponseBody_short_download :
    (setResponseBody {} { workPath_ := ascii "/srv" } { path_ := ascii "/do" }
      { closeConnection_ := false } []).result = .error .outOfRange := by
  have hfit : (ascii "/srv").length + (ascii "/do").length ≤ maxSize :=
    (lt_maxSize (by decide)).le
  have hroute : routeOf (ascii "/do") = .ok .download := by decide
  have htarget : downloadPath (ascii "/srv" ++ ascii "/do") (ascii "/do") =
      .error .outOfRange := by
    decide
  have hdownload (env : Environment) (before : List SysCall) (res : HttpResponse) :
      (download env { path_ := ascii "/do" } (ascii "/srv" ++ ascii "/do") res
        before).result = .error .outOfRange := by
    unfold download
    rw [htarget]
    exact congrArg Outcome.result (bind_of_error (lift_apply _ _))
  rw [setResponseBody_of_none hfit rfl hroute]
  unfold takeRoute
  dsimp only
  rw [bind_pure_apply, hdownload]
  rfl

end MyFileServer
