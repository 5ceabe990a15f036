import MyFileServer.Http.FileEffects
import MyFileServer.Http.PathCalls

/-!
# Confinement of paths to the work path

The paths of the handler are built by concatenation, so dots in the path of a
request lead out of the work path, and so do the cuts of the routes that look
for a word in the whole path.  `ConfinedRequest` says of a work path and a
request whether every path that is built stays inside.  The page template is
the one file whose path does not come from the request.
-/

namespace MyFileServer

open Execution CallLog LexicalPath

/-- The path resolves to the directory of the work path or to something below
it. -/
def Within (cwd : List Bytes) (workPath_ path : Bytes) : Prop :=
  Inside (chr '/') (chr '.') cwd (cstr workPath_) path

instance (cwd : List Bytes) (workPath_ path : Bytes) :
    Decidable (Within cwd workPath_ path) :=
  inferInstanceAs (Decidable (Inside _ _ _ _ _))

def SysCall.Confined (cwd : List Bytes) (workPath_ : Bytes) (call : SysCall) : Prop :=
  ∀ path, call.path? = some path → Within cwd workPath_ path

def SysCall.OpensTemplate : SysCall → Prop
  | .ifstream _ => True
  | _ => False

theorem entryClosed_within (cwd : List Bytes) (workPath_ : Bytes) :
    EntryClosed (Within cwd workPath_) where
  below := by
    intro dir entry hdir hwithin hentry
    rw [List.append_assoc]
    exact Inside.entry hdir hwithin ⟨entry.2.2.1, hentry⟩
  below_slash := by
    intro dir entry hwithin hentry
    rw [List.append_assoc]
    exact Inside.entry_of_sep hwithin ⟨entry.2.2.1, hentry⟩

/-! ## The path of the request -/

/-- Where the path of the request leads from the work path.  A path that
starts with a slash climbs some directories up and comes down again; it stays
below when it comes down through the directories that it has climbed. -/
def StaysBelow (cwd : List Bytes) (workPath_ m_url : Bytes) : Prop :=
  0 ∈ workPath_ ∨
    if workPath_ ≠ [] ∧ m_url.head? = some (chr '/') then
      let dir := resolve (chr '/') (chr '.') cwd workPath_
      let way := climb (chr '.') ((cstr m_url).splitOn (chr '/'))
      dir.drop (dir.length - way.1) <+: way.2
    else
      Within cwd workPath_ (workPath_ ++ cstr m_url)

theorem resolve_slash {cwd : List Bytes} {base m_url : Bytes} (hnul : 0 ∉ base)
    (hne : base ≠ []) (hhead : m_url.head? = some (chr '/')) :
    resolve (chr '/') (chr '.') cwd (cstr (base ++ m_url)) =
      walk (chr '.') (resolve (chr '/') (chr '.') cwd base)
        ((cstr m_url).splitOn (chr '/')) := by
  obtain ⟨rest, rfl⟩ := List.head?_eq_some_iff.mp hhead
  have hcstr : cstr (chr '/' :: rest) = chr '/' :: cstr rest :=
    cstr_append_of_notMem (s := [chr '/']) (by decide) rest
  have hnames := List.splitOn_append_cons_self (a := chr '/') [] (cstr rest)
  rw [List.nil_append] at hnames
  rw [cstr_append_of_notMem hnul, hcstr, resolve_append hne, hnames, walk_append]
  rfl

theorem staysBelow_iff (cwd : List Bytes) (workPath_ m_url : Bytes) :
    StaysBelow cwd workPath_ m_url ↔
      Within cwd workPath_ (cstr (workPath_ ++ m_url)) := by
  unfold StaysBelow
  by_cases hnul : 0 ∈ workPath_
  · rw [cstr_append_of_mem hnul]
    exact iff_of_true (.inl hnul) (inside_refl _)
  rw [cstr_append_of_notMem hnul, or_iff_right hnul]
  split
  next hslash =>
    obtain ⟨hne, hhead⟩ := hslash
    have hresolve := @resolve_slash cwd _ _ hnul hne hhead
    rw [cstr_append_of_notMem hnul] at hresolve
    unfold Within Inside
    rw [cstr_of_notMem hnul, hresolve, ← prefix_walk_iff]
  next => rfl

/-- A path that starts with a slash and has no name of two dots stays below. -/
theorem staysBelow_of_no_dotdot {cwd : List Bytes} {workPath_ m_url : Bytes}
    (hwork : workPath_ ≠ []) (hslash : m_url.head? = some (chr '/'))
    (hnames : ∀ name ∈ (cstr m_url).splitOn (chr '/'), name ≠ dotdot) :
    StaysBelow cwd workPath_ m_url := by
  have hup : (climb (chr '.') ((cstr m_url).splitOn (chr '/'))).1 = 0 :=
    climb_fst_eq_zero hnames
  right
  rw [if_pos ⟨hwork, hslash⟩]
  simp only [hup, Nat.sub_zero, List.drop_length]
  exact List.nil_prefix

/-! ## Paths that are cut -/

/-- Where a route cuts the whole path: in front of the first occurrence of its
word, and nowhere when there is none. -/
def cutAt (word path : Bytes) : ℕ := toSizeT (toInt (find path word))

/-- Where the first `n` bytes of the whole path and `way` lead.  When the cut is
behind the work path, the request path and `way` make up a request path; when
the word is found in the work path, the rest of that path is lost. -/
def LeadsBelow (cwd : List Bytes) (workPath_ m_url : Bytes) (n : ℕ) (way : Bytes) :
    Prop :=
  if workPath_.length ≤ n then
    StaysBelow cwd workPath_ (m_url.take (n - workPath_.length) ++ way)
  else
    Within cwd workPath_ (cstr (workPath_.take n ++ way))

theorem leadsBelow_iff (cwd : List Bytes) (workPath_ m_url : Bytes) (n : ℕ)
    (way : Bytes) :
    LeadsBelow cwd workPath_ m_url n way ↔
      Within cwd workPath_ (cstr ((workPath_ ++ m_url).take n ++ way)) := by
  unfold LeadsBelow
  split
  next hbehind =>
    rw [staysBelow_iff, List.take_append, List.take_of_length_le hbehind,
      List.append_assoc]
  next hinside => rw [List.take_append_of_le_length (by omega)]

theorem downloadPath_eq_ok {path m_url target : Bytes} :
    downloadPath path m_url = .ok target ↔
      10 ≤ m_url.length ∧
        target = path.take (cutAt (ascii "download") path) ++ m_url.drop 10 :=
  substr_append_eq_ok

/-- A listing is made for the whole path without a dot at its start; what is left
of the work path is `base`. -/
def LeadsInto (cwd : List Bytes) (workPath_ base m_url : Bytes) : Prop :=
  if 0 ∉ base ∧ base ≠ [] ∧ m_url.head? = some (chr '/') then
    resolve (chr '/') (chr '.') cwd (cstr workPath_) <+:
      reach (resolve (chr '/') (chr '.') cwd base)
        (climb (chr '.') ((cstr m_url).splitOn (chr '/')))
  else
    Within cwd workPath_ (cstr (base ++ m_url))

theorem leadsInto_iff (cwd : List Bytes) (workPath_ base m_url : Bytes) :
    LeadsInto cwd workPath_ base m_url ↔ Within cwd workPath_ (cstr (base ++ m_url)) := by
  unfold LeadsInto
  split
  next hslash =>
    obtain ⟨hnul, hne, hhead⟩ := hslash
    unfold Within Inside
    rw [resolve_slash hnul hne hhead, walk_eq_reach]
  next => rfl

theorem showPath_cons (c : UInt8) (rest : Bytes) :
    showPath (c :: rest) = if c = chr '.' then rest else c :: rest := by
  unfold showPath
  simp only [List.head?_cons, Option.some.injEq, List.tail_cons]

theorem within_showPath_iff {cwd : List Bytes} {workPath_ m_url : Bytes}
    (hstatic : Within cwd workPath_ (cstr (workPath_ ++ m_url))) :
    Within cwd workPath_ (cstr (showPath (workPath_ ++ m_url))) ↔
      (∀ base, workPath_ = chr '.' :: base → LeadsInto cwd workPath_ base m_url) ∧
        (workPath_ = [] → ∀ way, m_url = chr '.' :: way →
          Within cwd workPath_ (cstr way)) := by
  simp only [leadsInto_iff]
  cases workPath_ with
  | nil =>
      cases m_url with
      | nil =>
          exact iff_of_true hstatic ⟨fun _ h => (nomatch h), fun _ _ h => (nomatch h)⟩
      | cons c way =>
          rw [List.nil_append, showPath_cons]
          rw [List.nil_append] at hstatic
          constructor
          · intro h
            refine ⟨fun _ hcons => (nomatch hcons), fun _ rest hrest => ?_⟩
            obtain ⟨rfl, rfl⟩ := List.cons.inj hrest
            exact h
          · intro h
            split
            next hdot => exact h.2 rfl way (by rw [hdot])
            next => exact hstatic
  | cons c base =>
      rw [List.cons_append, showPath_cons]
      rw [List.cons_append] at hstatic
      constructor
      · intro h
        refine ⟨fun rest hrest => ?_, fun hnil => nomatch hnil⟩
        obtain ⟨rfl, rfl⟩ := List.cons.inj hrest
        exact h
      · intro h
        split
        next hdot => exact h.1 base (by rw [hdot])
        next => exact hstatic

def uploadFolder (req : HttpRequest) : Bytes :=
  let content_type := req.getHeader (ascii "Content-Type")
  if content_type = ascii "image/jpeg" ∨ content_type = ascii "image/png" then
    ascii "/img/"
  else
    ascii "/text/"

theorem uploadDir_eq (path : Bytes) (req : HttpRequest) :
    uploadDir path req = path.take (cutAt req.path_ path) ++ uploadFolder req := by
  unfold uploadDir uploadFolder cutAt
  dsimp only
  split_ifs <;> rfl

/-- Where the name of the client begins in its header, behind a quote. -/
def nameStart (disposition : Bytes) : ℕ :=
  toSizeT (toInt (find disposition (ascii "filename=")) + 10)

theorem substr_dropLast_eq_ok {s t : Bytes} {pos : ℕ} :
    (do
      let name ← substr s pos
      return name.dropLast : Exec Bytes) = .ok t ↔
      pos ≤ s.length ∧ t = (s.drop pos).dropLast := by
  constructor
  · intro h
    obtain ⟨name, hname, hlast⟩ := bind_eq_ok.mp h
    obtain ⟨hfit, rfl⟩ := substr_eq_ok.mp hname
    exact ⟨hfit, (Except.ok.inj hlast).symm⟩
  · intro h
    obtain ⟨hfit, rfl⟩ := h
    exact bind_eq_ok.mpr ⟨_, substr_eq_ok.mpr ⟨hfit, rfl⟩, rfl⟩

theorem uploadName_eq_ok {req : HttpRequest} {f_name : Bytes} :
    uploadName req = .ok f_name ↔
      nameStart (req.getHeader (ascii "Content-Disposition")) ≤
          (req.getHeader (ascii "Content-Disposition")).length ∧
        f_name = ((req.getHeader (ascii "Content-Disposition")).drop
          (nameStart (req.getHeader (ascii "Content-Disposition")))).dropLast :=
  substr_dropLast_eq_ok

/-- Where the directory of a file ends, behind the last slash. -/
def folderEnd (path : Bytes) : ℕ := toSizeT (toInt (findLastOf path (chr '/')) + 1)

/-- The directory ends in what is left of the whole path, or in what the route
puts behind it. -/
def FolderBelow (cwd : List Bytes) (workPath_ m_url : Bytes) (n : ℕ) (way : Bytes) : Prop :=
  ∀ front last, front = (workPath_ ++ m_url).take n → last = folderEnd (front ++ way) →
    (last ≤ front.length → LeadsBelow cwd workPath_ m_url last []) ∧
      (front.length < last →
        LeadsBelow cwd workPath_ m_url n (way.take (last - front.length)))

theorem folderBelow_iff (cwd : List Bytes) (workPath_ m_url : Bytes) (n : ℕ)
    (way : Bytes) :
    FolderBelow cwd workPath_ m_url n way ↔
      Within cwd workPath_ (cstr (parentDir ((workPath_ ++ m_url).take n ++ way))) := by
  have hparent (path : Bytes) : parentDir path = path.take (folderEnd path) := rfl
  unfold FolderBelow
  simp only [forall_eq_apply_imp_iff, forall_eq, leadsBelow_iff, hparent]
  generalize workPath_ ++ m_url = path
  generalize folderEnd (path.take n ++ way) = last
  by_cases hfront : last ≤ (path.take n).length
  · have hshort : last ≤ n := hfront.trans (List.length_take_le _ _)
    have hcut : (path.take n ++ way).take last = path.take last ++ [] := by
      rw [List.take_append_of_le_length hfront, List.take_take, min_eq_left hshort,
        List.append_nil]
    rw [hcut]
    exact ⟨fun h => h.1 hfront, fun h => ⟨fun _ => h, fun hbehind => by omega⟩⟩
  · have hcut : (path.take n ++ way).take last =
        path.take n ++ way.take (last - (path.take n).length) := by
      rw [List.take_append, List.take_of_length_le (by omega)]
    rw [hcut]
    exact ⟨fun h => h.2 (by omega), fun h => ⟨fun hinside => by omega, fun _ => h⟩⟩

/-! ## Requests that stay inside -/

/-- What each route appends to the work path, or to a part of it, leads to
something below the work path. -/
structure ConfinedRequest (cwd : List Bytes) (workPath_ : Bytes)
    (req : HttpRequest) : Prop where
  static : StaysBelow cwd workPath_ req.path_
  /-- A listing drops a dot at the start of the work path. -/
  listing : (cstr req.path_).length ≠ 1 → FitsArray (workPath_ ++ req.path_) →
    ∀ base, workPath_ = chr '.' :: base → LeadsInto cwd workPath_ base req.path_
  /-- Without a work path the dot is one of the request. -/
  listing_dot : (cstr req.path_).length ≠ 1 → FitsArray (workPath_ ++ req.path_) →
    workPath_ = [] → ∀ way, req.path_ = chr '.' :: way → Within cwd workPath_ (cstr way)
  download : routeOf req.path_ = .ok .download → 10 ≤ req.path_.length →
    LeadsBelow cwd workPath_ req.path_
      (cutAt (ascii "download") (workPath_ ++ req.path_)) (req.path_.drop 10)
  /-- The file name of the client, in the directory of the upload. -/
  upload : routeOf req.path_ = .ok .upload →
    nameStart (req.getHeader (ascii "Content-Disposition")) ≤
      (req.getHeader (ascii "Content-Disposition")).length →
    LeadsBelow cwd workPath_ req.path_ (cutAt req.path_ (workPath_ ++ req.path_))
      (uploadFolder req ++ ((req.getHeader (ascii "Content-Disposition")).drop
        (nameStart (req.getHeader (ascii "Content-Disposition")))).dropLast)
  upload_dir : routeOf req.path_ = .ok .upload →
    nameStart (req.getHeader (ascii "Content-Disposition")) ≤
      (req.getHeader (ascii "Content-Disposition")).length →
    FitsArray ((workPath_ ++ req.path_).take (cutAt req.path_ (workPath_ ++ req.path_)) ++
      uploadFolder req) →
    LeadsBelow cwd workPath_ req.path_ (cutAt req.path_ (workPath_ ++ req.path_))
      (uploadFolder req)
  delete : routeOf req.path_ = .ok .delete → 8 ≤ req.path_.length →
    LeadsBelow cwd workPath_ req.path_
      (cutAt (ascii "delete") (workPath_ ++ req.path_)) (req.path_.drop 8)
  /-- A file below the work path lies in a directory there, unless it is the
  work path itself. -/
  parent : routeOf req.path_ = .ok .delete → 8 ≤ req.path_.length →
    FitsArray (parentDir ((workPath_ ++ req.path_).take
      (cutAt (ascii "delete") (workPath_ ++ req.path_)) ++ req.path_.drop 8)) →
    FolderBelow cwd workPath_ req.path_
      (cutAt (ascii "delete") (workPath_ ++ req.path_)) (req.path_.drop 8)

/-- A request for a file or a directory by its names, none of them two dots. -/
structure PlainRequest (req : HttpRequest) : Prop where
  slash : req.path_.head? = some (chr '/')
  names : ∀ name ∈ (cstr req.path_).splitOn (chr '/'), name ≠ dotdot
  route : routeOf req.path_ ≠ .ok .download ∧ routeOf req.path_ ≠ .ok .upload ∧
    routeOf req.path_ ≠ .ok .delete

theorem PlainRequest.confined {cwd : List Bytes} {workPath_ : Bytes} {req : HttpRequest}
    (hreq : PlainRequest req) (hwork : workPath_ ≠ [])
    (hdot : workPath_.head? ≠ some (chr '.')) : ConfinedRequest cwd workPath_ req where
  static := staysBelow_of_no_dotdot hwork hreq.slash hreq.names
  listing := fun _ _ _ hbase => absurd (congrArg List.head? hbase) hdot
  listing_dot := fun _ _ hnil => absurd hnil hwork
  download := fun hroute => absurd hroute hreq.route.1
  upload := fun hroute => absurd hroute hreq.route.2.1
  upload_dir := fun hroute => absurd hroute hreq.route.2.1
  delete := fun hroute => absurd hroute hreq.route.2.2
  parent := fun hroute => absurd hroute hreq.route.2.2

/-- The requests that may be answered with a page made from the template. -/
def MayListFiles (workPath_ : Bytes) (req : HttpRequest) : Prop :=
  ((cstr req.path_).length ≠ 1 ∧ FitsArray (workPath_ ++ req.path_)) ∨
    (routeOf req.path_ = .ok .login ∧ Returns (accountForm req.m_string))

section Named

variable {cwd : List Bytes} {Template : Bytes → Prop} {workPath_ : Bytes} {req : HttpRequest}

theorem NamedPaths.confined (hnamed : NamedPaths (Within cwd workPath_) Template workPath_ req) :
    ConfinedRequest cwd workPath_ req := by
  have hdots (hroot : (cstr req.path_).length ≠ 1)
      (hfits : FitsArray (workPath_ ++ req.path_)) :=
    (within_showPath_iff hnamed.static).mp (hnamed.listing hroot hfits).1
  have hupload (hroute : routeOf req.path_ = .ok .upload) (hname :
      nameStart (req.getHeader (ascii "Content-Disposition")) ≤
        (req.getHeader (ascii "Content-Disposition")).length) :=
    hnamed.upload hroute _ (uploadName_eq_ok.mpr ⟨hname, rfl⟩)
  simp only [uploadDir_eq] at hupload
  exact {
    static := (staysBelow_iff _ _ _).mpr hnamed.static
    listing := fun hroot hfits => (hdots hroot hfits).1
    listing_dot := fun hroot hfits => (hdots hroot hfits).2
    download := fun hroute hlong => (leadsBelow_iff _ _ _ _ _).mpr
      (hnamed.download hroute _ (downloadPath_eq_ok.mpr ⟨hlong, rfl⟩))
    upload := by
      intro hroute hname
      rw [leadsBelow_iff, ← List.append_assoc]
      exact (hupload hroute hname).1
    upload_dir := fun hroute hname hfits => (leadsBelow_iff _ _ _ _ _).mpr
      ((hupload hroute hname).2 hfits)
    delete := fun hroute hlong => (leadsBelow_iff _ _ _ _ _).mpr
      (hnamed.delete hroute _ (deletePath_eq_ok.mpr ⟨hlong, rfl⟩)).1
    parent := fun hroute hlong hfits => (folderBelow_iff _ _ _ _ _).mpr
      ((hnamed.delete hroute _ (deletePath_eq_ok.mpr ⟨hlong, rfl⟩)).2 hfits) }

theorem ConfinedRequest.named (hconfined : ConfinedRequest cwd workPath_ req)
    (htemplate : MayListFiles workPath_ req → Template filelistPath) :
    NamedPaths (Within cwd workPath_) Template workPath_ req := by
  have hwork : Within cwd workPath_ (cstr workPath_) :=
    inside_refl (cstr workPath_)
  have hstatic := (staysBelow_iff _ _ _).mp hconfined.static
  exact {
    static := hstatic
    listing := fun hroot hfits =>
      ⟨(within_showPath_iff hstatic).mpr
        ⟨hconfined.listing hroot hfits, hconfined.listing_dot hroot hfits⟩,
        htemplate (.inl ⟨hroot, hfits⟩)⟩
    login := fun hroute hform => ⟨hwork, htemplate (.inr ⟨hroute, hform⟩)⟩
    download := by
      intro hroute target htarget
      obtain ⟨hlong, hcut⟩ := downloadPath_eq_ok.mp htarget
      rw [hcut, ← leadsBelow_iff]
      exact hconfined.download hroute hlong
    upload := by
      intro hroute f_name hname
      obtain ⟨hstart, hcut⟩ := uploadName_eq_ok.mp hname
      rw [uploadDir_eq, hcut, List.append_assoc]
      exact ⟨(leadsBelow_iff _ _ _ _ _).mp (hconfined.upload hroute hstart),
        fun hfits => (leadsBelow_iff _ _ _ _ _).mp (hconfined.upload_dir hroute hstart hfits)⟩
    delete := by
      intro hroute target htarget
      obtain ⟨hlong, hcut⟩ := deletePath_eq_ok.mp htarget
      rw [hcut]
      exact ⟨(leadsBelow_iff _ _ _ _ _).mp (hconfined.delete hroute hlong),
        fun hfits => (folderBelow_iff _ _ _ _ _).mp (hconfined.parent hroute hlong hfits)⟩ }

theorem namedPaths_within_iff :
    NamedPaths (Within cwd workPath_) Template workPath_ req ↔
      ConfinedRequest cwd workPath_ req ∧
        (MayListFiles workPath_ req → Template filelistPath) := by
  constructor
  · intro hnamed
    refine ⟨hnamed.confined, ?_⟩
    intro hlists
    rcases hlists with hdirectory | hlogin
    · exact (hnamed.listing hdirectory.1 hdirectory.2).2
    · exact (hnamed.login hlogin.1 hlogin.2).2
  · intro h
    exact h.1.named h.2

end Named

theorem confined_iff_names {cwd : List Bytes} {workPath_ : Bytes} (call : SysCall) :
    call.Confined cwd workPath_ ↔
      call.Names (Within cwd workPath_) fun path => Within cwd workPath_ (cstr path) := by
  cases call <;> simp [SysCall.Confined, SysCall.path?, SysCall.Names]

theorem confined_or_template_iff_names {cwd : List Bytes} {workPath_ : Bytes}
    (call : SysCall) :
    (¬ call.OpensTemplate → call.Confined cwd workPath_) ↔
      call.Names (Within cwd workPath_) fun _ => True := by
  cases call <;>
    simp [SysCall.OpensTemplate, SysCall.Confined, SysCall.path?, SysCall.Names]

/-- Every path that the handler builds for a request is confined, in every
file system and for all users, exactly when the request is; and the path of
the page template is, when no page is made from it or it is below the work
path.  Every plain request is confined, unless the work path begins with a
dot. -/
theorem setResponseBody_confined_iff (cwd : List Bytes) (workPath_ : Bytes)
    (req : HttpRequest) :
    ((∀ env users res,
        ∀ call ∈ (setResponseBody env ⟨workPath_, users⟩ req res []).calls,
          ¬ call.OpensTemplate → call.Confined cwd workPath_) ↔
      (workPath_.length + req.path_.length ≤ maxSize →
        ConfinedRequest cwd workPath_ req)) ∧
    ((∀ env users res,
        ∀ call ∈ (setResponseBody env ⟨workPath_, users⟩ req res []).calls,
          call.Confined cwd workPath_) ↔
      (workPath_.length + req.path_.length ≤ maxSize →
        ConfinedRequest cwd workPath_ req ∧
          (MayListFiles workPath_ req → Within cwd workPath_ filelistPath))) ∧
    (PlainRequest req → workPath_ ≠ [] → workPath_.head? ≠ some (chr '.') →
      ConfinedRequest cwd workPath_ req) := by
  have hclosed := entryClosed_within cwd workPath_
  refine ⟨?_, ?_, fun hreq hwork hdot => hreq.confined hwork hdot⟩
  · simp only [confined_or_template_iff_names]
    refine (emits_names_iff hclosed).trans ?_
    simp only [namedPaths_within_iff, implies_true, and_true]
  · simp only [confined_iff_names]
    refine (emits_names_iff hclosed).trans ?_
    simp only [namedPaths_within_iff]
    rfl

/-- With the work path `/srv/files` the path `/../secret` looks for
`/srv/secret`. -/
theorem dotdot_leaves_work_path :
    let workPath_ := ascii "/srv/files"
    let req : HttpRequest := { path_ := ascii "/../secret" }
    ¬ ∀ call ∈ (setResponseBody {} ⟨workPath_, ∅⟩ req
        { closeConnection_ := false } []).calls, call.Confined [] workPath_ := by
  intro workPath_ req hall
  have hfit : workPath_.length + req.path_.length ≤ maxSize :=
    (lt_maxSize (by decide)).le
  have hstat := (emits_setResponseBody.mp hall _
    (concat_eq_ok.mpr ⟨hfit, rfl⟩)).1
  have hwithin := hstat _ rfl
  revert hwithin
  decide

end MyFileServer
