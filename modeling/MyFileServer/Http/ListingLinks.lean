import MyFileServer.Http.FileEffects
import MyFileServer.Http.ListingPage
import MyFileServer.Http.PathConfinement
import MyFileServer.Http.SelfDelimiting
import MyFileServer.Lib.UriReference

/-!
# The links of the rows

A row has a link that downloads its file and one that deletes it.  Both are
relative, so they are read from the place of the page, while the routes expect
their word at the beginning of the path.  The two agree for the directories
directly below the work path only: on a deeper page both links begin with the
same directory.
-/

namespace MyFileServer

open Execution CallLog Delimiter UriReference

/-! ## The links of a text -/

def linkStart : Bytes := ascii "<a href=\""

/-- The values of `href` in double quotes, in the order of the text. -/
def hrefs : Bytes → List Bytes
  | [] => []
  | c :: rest =>
      if linkStart.isPrefixOf (c :: rest) then
        (rest.drop (linkStart.length - 1)).takeWhile (· ≠ chr '"') :: hrefs rest
      else
        hrefs rest

theorem hrefs_append_of_notMem {s : Bytes} (hs : chr '<' ∉ s) (t : Bytes) :
    hrefs (s ++ t) = hrefs t := by
  induction s with
  | nil => rfl
  | cons c s ih =>
      rw [List.mem_cons, not_or] at hs
      have hother : linkStart.isPrefixOf (c :: (s ++ t)) = false := by
        rw [Bool.eq_false_iff]
        intro hstart
        obtain ⟨tail, htail⟩ := List.isPrefixOf_iff_prefix.mp hstart
        exact hs.1 (List.cons.inj htail).1
      rw [List.cons_append, hrefs, hother, ih hs.2]
      rfl

/-- The column of the name has its link without quotes. -/
theorem hrefs_name_column (t : Bytes) :
    hrefs (utf8 "            <tr><td class=\"col1\"><a href=" ++ chr '/' :: t) =
      hrefs t := by
  have htext : utf8 "            <tr><td class=\"col1\"><a href=" =
      ascii "            <tr><td class=\"col1\"><a href=" := by
    decide +kernel
  rw [htext]
  rfl

theorem hrefs_download_column (t : Bytes) :
    hrefs (utf8 "</a></td> <td class=\"col2\"><a href=\"download" ++ t) =
      (ascii "download" ++ t).takeWhile (· ≠ chr '"') :: hrefs t := by
  have htext : utf8 "</a></td> <td class=\"col2\"><a href=\"download" =
      ascii "</a></td> <td class=\"col2\"><a href=\"download" := by
    decide +kernel
  rw [htext]
  rfl

theorem hrefs_delete_column (t : Bytes) :
    hrefs (utf8 "\">下载</a></td> <td class=\"col3\"><a href=\"delete" ++ t) =
      (ascii "delete" ++ t).takeWhile (· ≠ chr '"') :: hrefs t := by
  have htext : utf8 "\">下载</a></td> <td class=\"col3\"><a href=\"delete" =
      utf8 "\">下载" ++ ascii "</a></td> <td class=\"col3\"><a href=\"delete" := by
    decide +kernel
  have hname : chr '<' ∉ utf8 "\">下载" := by decide +kernel
  rw [htext, List.append_assoc, hrefs_append_of_notMem hname]
  rfl

theorem hrefs_row_end :
    hrefs (utf8 "\" onclick=\"return confirmDelete();\">删除</a></td></tr>" ++ utf8 "\n") =
      [] := by
  decide +kernel

theorem linkedRow_eq (m_url filename : Bytes) :
    linkedRow m_url filename =
      utf8 "            <tr><td class=\"col1\"><a href=" ++ (m_url ++ (utf8 "/" ++ filename ++
        utf8 ">" ++ filename ++
        (utf8 "</a></td> <td class=\"col2\"><a href=\"download" ++
        (m_url ++ utf8 "/" ++ filename ++
        (utf8 "\">下载</a></td> <td class=\"col3\"><a href=\"delete" ++
        (m_url ++ utf8 "/" ++ filename ++
        (utf8 "\" onclick=\"return confirmDelete();\">删除</a></td></tr>" ++
          utf8 "\n"))))))) := by
  unfold linkedRow
  simp only [List.append_assoc]

/-- The value of a link ends at the quote that is meant. -/
theorem takeWhile_link {word way text : Bytes} (hword : chr '"' ∉ word)
    (hway : chr '"' ∉ way) (htext : text.head? = some (chr '"')) (t : Bytes) :
    (word ++ (way ++ (text ++ t))).takeWhile (· ≠ chr '"') = word ++ way := by
  obtain ⟨back, rfl⟩ := List.head?_eq_some_iff.mp htext
  rw [List.cons_append, ← List.append_assoc]
  apply takeWhile_ne_cons
  rw [List.mem_append, not_or]
  exact ⟨hword, hway⟩

theorem hrefs_linkedRow {m_url filename tail : Bytes} (hm_url : m_url = chr '/' :: tail)
    (htag : chr '<' ∉ m_url ++ utf8 "/" ++ filename)
    (hquote : chr '"' ∉ m_url ++ utf8 "/" ++ filename) :
    hrefs (linkedRow m_url filename) =
      [ascii "download" ++ (m_url ++ utf8 "/" ++ filename),
        ascii "delete" ++ (m_url ++ utf8 "/" ++ filename)] := by
  have hname : chr '<' ∉ tail ++ (utf8 "/" ++ filename ++ utf8 ">" ++ filename) := by
    have hmark : chr '<' ∉ utf8 ">" := by decide +kernel
    simp only [hm_url, List.mem_append, List.mem_cons, not_or] at htag ⊢
    exact ⟨htag.1.1.2, ⟨⟨⟨htag.1.2, htag.2⟩, hmark⟩, htag.2⟩⟩
  have hfirst : ∀ t, hrefs (utf8 "            <tr><td class=\"col1\"><a href=" ++
      (m_url ++ (utf8 "/" ++ filename ++ utf8 ">" ++ filename ++ t))) = hrefs t := by
    intro t
    rw [hm_url, List.cons_append, hrefs_name_column, ← List.append_assoc tail,
      hrefs_append_of_notMem hname]
  rw [linkedRow_eq, hfirst, hrefs_download_column, hrefs_append_of_notMem htag,
    hrefs_delete_column, hrefs_append_of_notMem htag, hrefs_row_end,
    takeWhile_link (by decide) hquote (by decide +kernel),
    takeWhile_link (by decide) hquote (by decide +kernel)]

/-! ## The place of a page -/

/-- The path of a directory below the work path, at any depth: segments that URL
and HTML take as they are, the last one not empty. -/
structure PagePath where
  dirs : List Bytes
  last : Bytes
  dirs_plain : ∀ segment ∈ dirs, PlainSegment segment
  last_plain : PlainSegment last
  last_ne_nil : last ≠ []

def PagePath.url (page : PagePath) : Bytes :=
  absolute (page.dirs ++ [page.last])

/-- The paths that a browser asks for when the links of the row are followed. -/
def linkPaths (page : PagePath) (filename : Bytes) : List (Option Bytes) :=
  (hrefs (linkedRow page.url filename)).map (resolve page.url)

def PagePath.linkPath (page : PagePath) (word filename : Bytes) : Bytes :=
  absolute (page.dirs ++ word :: (page.dirs ++ [page.last, filename]))

theorem PagePath.notMem_url (page : PagePath) {c : UInt8} (hslash : c ≠ 47)
    (hc : isSegmentByte c = false) : c ∉ page.url := by
  intro hmem
  obtain ⟨segment, hsegment, hbyte⟩ := List.mem_flatMap.mp hmem
  rcases List.mem_cons.mp hbyte with heq | hbyte
  · exact hslash heq
  · rcases List.mem_append.mp hsegment with hdirs | hlast
    · exact (page.dirs_plain segment hdirs).notMem hc hbyte
    · rw [List.mem_singleton.mp hlast] at hbyte
      exact page.last_plain.notMem hc hbyte

theorem PagePath.url_eq_cons (page : PagePath) : ∃ tail, page.url = chr '/' :: tail := by
  unfold PagePath.url
  cases page.dirs with
  | nil => exact ⟨_, rfl⟩
  | cons segment dirs => exact ⟨_, rfl⟩

theorem PagePath.resolve_link (page : PagePath) {word filename : Bytes}
    (hword : PlainSegment word) (hnonempty : word ≠ []) (hcolon : 58 ∉ word)
    (hname : PlainSegment filename) :
    resolve page.url (word ++ (page.url ++ utf8 "/" ++ filename)) =
      some (page.linkPath word filename) := by
  have hslash : utf8 "/" = [47] := by decide +kernel
  have hrest : page.url ++ utf8 "/" ++ filename =
      absolute (page.dirs ++ [page.last, filename]) := by
    unfold PagePath.url
    rw [hslash]
    simp
  rw [hrest]
  apply resolve_beside page.dirs_plain page.last_plain hword hnonempty hcolon
  intro segment hsegment
  simp only [List.mem_append, List.mem_cons, List.not_mem_nil, or_false] at hsegment
  rcases hsegment with hdirs | rfl | rfl
  · exact page.dirs_plain segment hdirs
  · exact page.last_plain
  · exact hname

theorem linkPaths_eq (page : PagePath) {filename : Bytes} (hname : PlainSegment filename) :
    linkPaths page filename =
      [some (page.linkPath (ascii "download") filename),
        some (page.linkPath (ascii "delete") filename)] := by
  obtain ⟨tail, htail⟩ := page.url_eq_cons
  have hway : ∀ {c : UInt8}, c ≠ 47 → isSegmentByte c = false →
      c ∉ page.url ++ utf8 "/" ++ filename := by
    intro c hslash hc
    have hbetween : utf8 "/" = [47] := by decide +kernel
    rw [hbetween, List.mem_append, List.mem_append, List.mem_singleton]
    rintro ((hurl | heq) | hmem)
    · exact page.notMem_url hslash hc hurl
    · exact hslash heq
    · exact hname.notMem hc hmem
  have hdownload : PlainSegment (ascii "download") := ⟨by decide, by decide, by decide⟩
  have hdelete : PlainSegment (ascii "delete") := ⟨by decide, by decide, by decide⟩
  unfold linkPaths
  rw [hrefs_linkedRow htail (hway (by decide) (by decide)) (hway (by decide) (by decide)),
    List.map_cons, List.map_cons, List.map_nil,
    page.resolve_link hdownload (by decide) (by decide) hname,
    page.resolve_link hdelete (by decide) (by decide) hname]

/-! ## Calls on the file that a link is for -/

def SysCall.opened? : SysCall → Option Bytes
  | .openFile path => some path
  | _ => none

def SysCall.removed? : SysCall → Option Bytes
  | .remove path => some path
  | _ => none

section Effects

variable {env : Environment} {before : List SysCall} {server : FileServer}
  {req : HttpRequest} {res : HttpResponse} {target : Bytes}

theorem emits_takeRoute_ne_openFile {path : Bytes} {route : Route}
    (hroute : route = .download → downloadPath path req.path_ ≠ .ok target) :
    Emits (· ≠ .openFile target) (takeRoute env server req path res route) before := by
  have hscan : ∀ dir before, Emits (· ≠ SysCall.openFile target) (scanDir env dir) before := by
    intro dir before
    exact emits_scanDir_of_reads (by simp) (by simp) (by simp) dir before
  cases route with
  | signUp => simp [takeRoute]
  | signIn => simp [takeRoute]
  | notFound => simp [takeRoute]
  | login =>
      unfold takeRoute
      simp only [emits_lift_bind, emits_bind_pure, emits_login]
      intro form _ _
      unfold getRootListPage
      rw [emits_fileListPage]
      simp
  | register =>
      unfold takeRoute
      simp only [emits_lift_bind, emits_register]
      simp
  | download =>
      unfold takeRoute
      rw [emits_bind_pure, emits_download]
      intro other hother
      refine ⟨by simp, ?_⟩
      intro heq
      cases heq
      exact hroute rfl hother
  | upload =>
      unfold takeRoute
      rw [emits_bind_pure, emits_upload]
      intro f_name _
      rw [emits_storeFile]
      exact ⟨⟨by simp, by simp⟩, hscan _ _⟩
  | delete =>
      unfold takeRoute
      rw [emits_bind_pure, emits_delete]
      intro other _
      exact ⟨by simp, by simp, hscan _ _⟩

theorem emits_sendExisting_ne_openFile {path : Bytes} {buffer : FileStatus}
    (hother : target ≠ path) :
    Emits (· ≠ .openFile target) (sendExisting env req path buffer res) before := by
  unfold sendExisting
  cases buffer.kind with
  | directory =>
      rw [emits_sendDirectory]
      intro _
      refine ⟨emits_scanDir_of_reads (by simp) (by simp) (by simp) _ _, ?_⟩
      intro _ _
      unfold getFileListPage
      rw [emits_fileListPage]
      simp
  | regular =>
      rw [emits_sendRegular]
      refine ⟨?_, by simp⟩
      intro heq
      cases heq
      exact hother rfl
  | other => simp

theorem download_calls {path : Bytes} (htarget : downloadPath path req.path_ = .ok target) :
    (download env req path res before).calls = [.stat target, .openFile target] := by
  unfold download
  rw [htarget, lift_ok_bind, bind_of_ok statSize_apply]
  unfold Environment.openFile
  rw [perform_bind]
  rfl

theorem remove_calls {α β : Type} (scan : Sys β) (a : α) :
    ((do
      let _ ← env.stat target
      removeFile target
      let _ ← scan
      pure a) before).calls = .stat target :: .remove target ::
        (scan (before ++ [.stat target] ++ [.remove target])).calls := by
  have hstat : env.stat target before =
      ⟨.ok (env.status before (cstr target)), [.stat target]⟩ := rfl
  have hremove : removeFile target (before ++ [.stat target]) =
      ⟨.ok (), [.remove target]⟩ := rfl
  rw [bind_of_ok hstat, bind_of_ok hremove, bind_pure_apply]
  rfl

theorem delete_calls {path : Bytes} (htarget : deletePath path req.path_ = .ok target) :
    ∃ scanned, (delete env req path res before).calls =
        .stat target :: .remove target :: scanned ∧
      ∀ call ∈ scanned, ¬ call.Changes := by
  unfold delete
  rw [htarget, lift_ok_bind]
  exact ⟨_, remove_calls (scanDir env (parentDir target)) _, keepsFiles_scanDir _ _⟩

theorem takeRoute_download (path : Bytes) :
    takeRoute env server req path res .download =
      download env req path res >>= fun response => pure (server, response) :=
  rfl

theorem takeRoute_delete (path : Bytes) :
    takeRoute env server req path res .delete =
      delete env req path res >>= fun response => pure (server, response) :=
  rfl

theorem mem_opened_iff {calls : List SysCall} :
    target ∈ calls.filterMap SysCall.opened? ↔ .openFile target ∈ calls := by
  rw [List.mem_filterMap]
  constructor
  · intro h
    obtain ⟨call, hcall, hopened⟩ := h
    cases call <;> cases hopened
    exact hcall
  · intro hcall
    exact ⟨_, hcall, rfl⟩

theorem mem_removed_iff {calls : List SysCall} :
    target ∈ calls.filterMap SysCall.removed? ↔ .remove target ∈ calls := by
  rw [List.mem_filterMap]
  constructor
  · intro h
    obtain ⟨call, hcall, hremoved⟩ := h
    cases call <;> cases hremoved
    exact hcall
  · intro hcall
    exact ⟨_, hcall, rfl⟩

/-- A file other than the one at the whole path is opened by a download only. -/
theorem setResponseBody_opens_iff (hother : target ≠ server.workPath_ ++ req.path_) :
    (setResponseBody env server req res before).calls.filterMap SysCall.opened? = [target] ↔
      server.workPath_.length + req.path_.length ≤ maxSize ∧
        env.status before (cstr (server.workPath_ ++ req.path_)) = none ∧
        routeOf req.path_ = .ok .download ∧
        downloadPath (server.workPath_ ++ req.path_) req.path_ = .ok target := by
  constructor
  · intro hcalls
    have hmem := mem_opened_iff.mp (hcalls ▸ List.mem_singleton_self target)
    by_contra hnot
    have hemits : Emits (· ≠ .openFile target) (setResponseBody env server req res) before := by
      rw [emits_setResponseBody]
      intro path hpath
      obtain ⟨hfit, rfl⟩ := concat_eq_ok.mp hpath
      refine ⟨by simp, fun buffer _ => emits_sendExisting_ne_openFile hother, ?_⟩
      intro hmissing route hroute
      apply emits_takeRoute_ne_openFile
      intro hdownload htarget
      exact hnot ⟨hfit, hmissing, hdownload ▸ hroute, htarget⟩
    exact hemits _ hmem rfl
  · intro h
    obtain ⟨hfit, hmissing, hroute, htarget⟩ := h
    rw [setResponseBody_of_none hfit hmissing hroute]
    rw [takeRoute_download, bind_pure_apply]
    dsimp only
    rw [download_calls htarget]
    rfl

theorem setResponseBody_removes_iff :
    (setResponseBody env server req res before).calls.filterMap SysCall.removed? = [target] ↔
      server.workPath_.length + req.path_.length ≤ maxSize ∧
        env.status before (cstr (server.workPath_ ++ req.path_)) = none ∧
        routeOf req.path_ = .ok .delete ∧
        deletePath (server.workPath_ ++ req.path_) req.path_ = .ok target := by
  have hkept : ∀ call : SysCall, ¬ call.Changes → call ≠ .remove target := by
    rintro call hcall rfl
    exact hcall trivial
  constructor
  · intro hcalls
    have hmem := mem_removed_iff.mp (hcalls ▸ List.mem_singleton_self target)
    by_contra hnot
    have hemits : Emits (· ≠ .remove target) (setResponseBody env server req res) before := by
      rw [emits_setResponseBody]
      intro path hpath
      obtain ⟨hfit, rfl⟩ := concat_eq_ok.mp hpath
      refine ⟨by simp, fun buffer _ => (keepsFiles_sendExisting _ _ _ _ _).mono hkept, ?_⟩
      intro hmissing route hroute
      by_cases hupload : route = .upload
      · rw [hupload]
        unfold takeRoute
        rw [emits_bind_pure, emits_upload]
        intro f_name _
        rw [emits_storeFile]
        exact ⟨⟨by simp, by simp⟩, (keepsFiles_scanDir _ _).mono hkept⟩
      by_cases hdelete : route = .delete
      · rw [hdelete]
        unfold takeRoute
        rw [emits_bind_pure, emits_delete]
        intro other hother
        refine ⟨by simp, ?_, (keepsFiles_scanDir _ _).mono hkept⟩
        intro heq
        cases heq
        exact hnot ⟨hfit, hmissing, hdelete ▸ hroute, hother⟩
      exact (keepsFiles_takeRoute _ _ _ _ hupload hdelete _).mono hkept
    exact hemits _ hmem rfl
  · intro h
    obtain ⟨hfit, hmissing, hroute, htarget⟩ := h
    obtain ⟨scanned, hcalls, hkeeps⟩ := delete_calls htarget
    have hnone : scanned.filterMap SysCall.removed? = [] := by
      rw [List.filterMap_eq_nil_iff]
      intro call hcall
      cases call with
      | remove path => exact absurd trivial (hkeeps _ hcall)
      | _ => rfl
    rw [setResponseBody_of_none hfit hmissing hroute, takeRoute_delete, bind_pure_apply]
    dsimp only
    rw [hcalls]
    simp only [List.filterMap_cons, SysCall.removed?, hnone]

end Effects

/-! ## Routes of the links -/

theorem downloadPath_eq_iff {workPath_ p : Bytes}
    (hfit : workPath_.length + (ascii "/download/" ++ p).length ≤ maxSize) :
    downloadPath (workPath_ ++ (ascii "/download/" ++ p)) (ascii "/download/" ++ p) =
        .ok (workPath_ ++ ascii "/" ++ p) ↔
      Free (ascii "download") workPath_ ∧ workPath_.length + 1 < 2 ^ 31 := by
  have hpath : workPath_ ++ (ascii "/download/" ++ p) =
      workPath_ ++ ascii "/" ++ ascii "download" ++ (ascii "/" ++ p) := by
    simp [ascii]
  have hdrop : (ascii "/download/" ++ p).drop 10 = p := rfl
  have hlong : 10 ≤ (ascii "/download/" ++ p).length := by
    simp [ascii]
  have hbound := maxSize_lt_off64
  rw [downloadPath_eq_ok, cutAt, hdrop, List.append_left_inj, hpath,
    eq_comm (a := workPath_ ++ ascii "/"),
    take_word_eq_iff (by decide) (by decide) (by omega)]
  exact and_iff_right hlong

theorem routeOf_bytes {m_url : Bytes} {route : Route} (hroute : routeOf m_url = .ok route) :
    (route = .download → m_url.getD 1 0 = chr 'd' ∧ m_url.getD 2 0 = chr 'o') ∧
      (route = .delete → m_url.getD 1 0 = chr 'd' ∧ m_url.getD 2 0 = chr 'e') := by
  obtain ⟨first, hfirst, hroute⟩ := bind_eq_ok.mp hroute
  have hbyte : first = m_url.getD 1 0 := (ite_eq_ok.mp hfirst).2
  rw [← hbyte]
  generalize m_url.getD 2 0 = second at hroute ⊢
  constructor
  · rintro rfl
    by_contra hnot
    simp only [if_neg hnot] at hroute
    split_ifs at hroute <;> cases hroute
  · rintro rfl
    by_contra hnot
    simp only [if_neg hnot] at hroute
    split_ifs at hroute <;> cases hroute

/-- Behind a directory both links have the same third byte. -/
theorem not_both_routes {dir : Bytes} {tail tail' : Bytes}
    (hdownload : routeOf (47 :: (dir ++ 47 :: tail)) = .ok .download)
    (hdelete : routeOf (47 :: (dir ++ 47 :: tail')) = .ok .delete) : False := by
  obtain ⟨hd, ho⟩ := (routeOf_bytes hdownload).1 rfl
  obtain ⟨_, he⟩ := (routeOf_bytes hdelete).2 rfl
  match dir with
  | [] =>
      have hslash : (47 : UInt8) = chr 'd' := hd
      exact absurd hslash (by decide)
  | [c] =>
      have hslash : (47 : UInt8) = chr 'o' := ho
      exact absurd hslash (by decide)
  | c :: c' :: dir =>
      have hsame : chr 'o' = chr 'e' := ho.symm.trans he
      exact absurd hsame (by decide)

theorem routeOf_download (p : Bytes) : routeOf (ascii "/download/" ++ p) = .ok .download :=
  rfl

theorem routeOf_delete (p : Bytes) : routeOf (ascii "/delete/" ++ p) = .ok .delete :=
  rfl

/-! ## Following the links of a row -/

/-- When the links of the row are followed, the handler opens the file of the row
for the one, and removes it for the other. -/
def LinksReachFile (env : Environment) (server : FileServer) (page : PagePath)
    (filename : Bytes) (atDownload atDelete : List SysCall) : Prop :=
  ∃ download delete, linkPaths page filename = [some download, some delete] ∧
    (∀ req res, req.path_ = download →
      (setResponseBody env server req res atDownload).calls.filterMap SysCall.opened? =
        [server.workPath_ ++ page.url ++ ascii "/" ++ filename]) ∧
    (∀ req res, req.path_ = delete →
      (setResponseBody env server req res atDelete).calls.filterMap SysCall.removed? =
        [server.workPath_ ++ page.url ++ ascii "/" ++ filename])

/-- The directory is directly below a work path without the words of the routes,
and there are no files under the paths of the links. -/
structure LinksMeetRoutes (env : Environment) (server : FileServer) (page : PagePath)
    (filename : Bytes) (atDownload atDelete : List SysCall) : Prop where
  direct : page.dirs = []
  download_free : Free (ascii "download") server.workPath_
  delete_free : Free (ascii "delete") server.workPath_
  work_path_short : server.workPath_.length + 1 < 2 ^ 31
  fits : server.workPath_.length + (page.linkPath (ascii "download") filename).length ≤ maxSize
  download_missing : env.status atDownload
    (cstr (server.workPath_ ++ page.linkPath (ascii "download") filename)) = none
  delete_missing : env.status atDelete
    (cstr (server.workPath_ ++ page.linkPath (ascii "delete") filename)) = none

section Following

variable {env : Environment} {server : FileServer} {page : PagePath} {filename : Bytes}
  {atDownload atDelete : List SysCall}

/-- The path of a link is longer than that of its file. -/
theorem PagePath.file_ne_linkPath (page : PagePath) (word filename : Bytes) (workPath_ : Bytes) :
    workPath_ ++ page.url ++ ascii "/" ++ filename ≠
      workPath_ ++ page.linkPath word filename := by
  intro heq
  have hlength := congrArg List.length heq
  have hslash : (ascii "/").length = 1 := rfl
  simp only [PagePath.url, PagePath.linkPath, absolute_append, absolute_cons, absolute_nil,
    List.length_append, List.length_cons, hslash, List.length_nil] at hlength
  omega

theorem linkPath_direct (hdirect : page.dirs = []) (word : Bytes) :
    page.linkPath word filename =
      47 :: (word ++ 47 :: (page.last ++ ascii "/" ++ filename)) := by
  unfold PagePath.linkPath
  rw [hdirect]
  simp [ascii]

theorem file_direct (hdirect : page.dirs = []) (workPath_ : Bytes) :
    workPath_ ++ page.url ++ ascii "/" ++ filename =
      workPath_ ++ ascii "/" ++ (page.last ++ ascii "/" ++ filename) := by
  unfold PagePath.url
  rw [hdirect]
  simp [ascii]

/-- A page further down has no two links that are routed as they are meant. -/
theorem direct_of_routes
    (hdownload : routeOf (page.linkPath (ascii "download") filename) = .ok .download)
    (hdelete : routeOf (page.linkPath (ascii "delete") filename) = .ok .delete) :
    page.dirs = [] := by
  unfold PagePath.linkPath at hdownload hdelete
  cases hdirs : page.dirs with
  | nil => rfl
  | cons dir dirs =>
      have hbegin : ∀ word, ∃ tail, absolute (dir :: dirs ++ word ::
          (dir :: dirs ++ [page.last, filename])) = 47 :: (dir ++ 47 :: tail) := by
        intro word
        cases dirs with
        | nil => exact ⟨_, rfl⟩
        | cons next dirs => exact ⟨_, rfl⟩
      obtain ⟨tail, htail⟩ := hbegin (ascii "download")
      obtain ⟨tail', htail'⟩ := hbegin (ascii "delete")
      rw [hdirs, htail] at hdownload
      rw [hdirs, htail'] at hdelete
      exact (not_both_routes hdownload hdelete).elim

section Direct

variable {before : List SysCall} {req : HttpRequest} {res : HttpResponse}
  (hdirect : page.dirs = [])

include hdirect

theorem opens_direct_iff (hpath : req.path_ = page.linkPath (ascii "download") filename) :
    (setResponseBody env server req res before).calls.filterMap SysCall.opened? =
        [server.workPath_ ++ page.url ++ ascii "/" ++ filename] ↔
      server.workPath_.length + req.path_.length ≤ maxSize ∧
        env.status before (cstr (server.workPath_ ++ req.path_)) = none ∧
        Free (ascii "download") server.workPath_ ∧ server.workPath_.length + 1 < 2 ^ 31 := by
  have hother := page.file_ne_linkPath (ascii "download") filename server.workPath_
  rw [← hpath] at hother
  have hlink : req.path_ =
      ascii "/download/" ++ (page.last ++ ascii "/" ++ filename) := by
    rw [hpath, linkPath_direct hdirect]
    rfl
  rw [setResponseBody_opens_iff hother, file_direct hdirect, hlink]
  refine and_congr_right fun hfit => and_congr_right fun _ => ?_
  rw [downloadPath_eq_iff hfit]
  exact and_iff_right (routeOf_download _)

theorem removes_direct_iff (hpath : req.path_ = page.linkPath (ascii "delete") filename) :
    (setResponseBody env server req res before).calls.filterMap SysCall.removed? =
        [server.workPath_ ++ page.url ++ ascii "/" ++ filename] ↔
      server.workPath_.length + req.path_.length ≤ maxSize ∧
        env.status before (cstr (server.workPath_ ++ req.path_)) = none ∧
        Free (ascii "delete") server.workPath_ ∧ server.workPath_.length + 1 < 2 ^ 31 := by
  have hlink : req.path_ = ascii "/delete/" ++ (page.last ++ ascii "/" ++ filename) := by
    rw [hpath, linkPath_direct hdirect]
    rfl
  rw [setResponseBody_removes_iff, file_direct hdirect, hlink]
  refine and_congr_right fun hfit => and_congr_right fun _ => ?_
  rw [deletePath_eq_iff hfit]
  exact and_iff_right (routeOf_delete _)

end Direct

theorem linksReachFile_iff_meetRoutes (hname : PlainSegment filename) :
    LinksReachFile env server page filename atDownload atDelete ↔
      LinksMeetRoutes env server page filename atDownload atDelete := by
  unfold LinksReachFile
  rw [linkPaths_eq page hname]
  constructor
  · intro h
    obtain ⟨download, delete, hlinks, hopens, hremoves⟩ := h
    obtain ⟨hdownload, hdelete⟩ : page.linkPath (ascii "download") filename = download ∧
        page.linkPath (ascii "delete") filename = delete := by
      simpa using hlinks
    have hopened := hopens { path_ := download } { closeConnection_ := false } rfl
    have hremoved := hremoves { path_ := delete } { closeConnection_ := false } rfl
    have hother := page.file_ne_linkPath (ascii "download") filename server.workPath_
    rw [hdownload] at hother
    have hdirect : page.dirs = [] := by
      apply direct_of_routes
      · rw [hdownload]
        exact ((setResponseBody_opens_iff hother).mp hopened).2.2.1
      · rw [hdelete]
        exact (setResponseBody_removes_iff.mp hremoved).2.2.1
    obtain ⟨hfit, hmissing, hfree, hshort⟩ :=
      (opens_direct_iff hdirect hdownload.symm).mp hopened
    obtain ⟨_, hmissing', hfree', _⟩ := (removes_direct_iff hdirect hdelete.symm).mp hremoved
    constructor
    · exact hdirect
    · exact hfree
    · exact hfree'
    · exact hshort
    · rwa [hdownload]
    · rwa [hdownload]
    · rwa [hdelete]
  · intro h
    have hfits := h.fits
    have hfits' : server.workPath_.length +
        (page.linkPath (ascii "delete") filename).length ≤ maxSize := by
      rw [linkPath_direct h.direct] at hfits ⊢
      refine le_trans ?_ hfits
      simp [ascii]
    refine ⟨_, _, rfl, ?_, ?_⟩
    · intro req res hpath
      rw [opens_direct_iff h.direct hpath, hpath]
      exact ⟨hfits, h.download_missing, h.download_free, h.work_path_short⟩
    · intro req res hpath
      rw [removes_direct_iff h.direct hpath, hpath]
      exact ⟨hfits', h.delete_missing, h.delete_free, h.work_path_short⟩

/-- The page of a directory has the row of each entry. -/
theorem linkedRow_infix_page {dirName m_url html : Bytes} {before : List SysCall}
    {entries : List EntryName} (hentries : env.entries before (cstr dirName) = some entries)
    (hlisted : filename ∈ listedNames entries)
    (hpage : (getFileListPage env dirName m_url before).result = .ok html) :
    linkedRow m_url filename <:+: html := by
  have hlabel : filelistLabel ∈ templateLines (templateFile env before dirName) :=
    (fileListPage_returns_iff hentries _).mp ⟨html, hpage⟩
  unfold getFileListPage at hpage
  rw [fileListPage_result hentries, fillTemplate_of_label hlabel] at hpage
  obtain rfl := Except.ok.inj hpage
  have hrows : linkedRow m_url filename <:+: (listedNames entries).flatMap (linkedRow m_url) := by
    obtain ⟨front, back, hsplit⟩ := List.append_of_mem hlisted
    rw [hsplit, List.flatMap_append, List.flatMap_cons]
    exact ⟨front.flatMap (linkedRow m_url), back.flatMap (linkedRow m_url),
      List.append_assoc _ _ _⟩
  exact hrows.trans ⟨_, _, rfl⟩

theorem linksReachFile_iff {before : List SysCall} {entries : List EntryName} {html : Bytes}
    (hname : PlainSegment filename)
    (hentries : env.entries before (cstr (showPath (server.workPath_ ++ page.url))) =
      some entries)
    (hlisted : filename ∈ listedNames entries)
    (hpage : (getFileListPage env (showPath (server.workPath_ ++ page.url)) page.url
      before).result = .ok html) :
    linkedRow page.url filename <:+: html ∧
      (LinksReachFile env server page filename atDownload atDelete ↔
        LinksMeetRoutes env server page filename atDownload atDelete) :=
  ⟨linkedRow_infix_page hentries hlisted hpage, linksReachFile_iff_meetRoutes hname⟩

end Following

/-- One directory with one file. -/
def oneFileEnvironment (dir : Bytes) (name : EntryName) : Environment where
  status := fun _ path =>
    if path = dir then some ⟨.directory, 4096, by decide⟩
    else if path = dir ++ ascii "/" ++ name.1 then some ⟨.regular, 12, by decide⟩
    else none
  entries := fun _ path => if path = dir then some [name] else none
  content := fun _ _ => some filelistLabel

theorem getFileListPage_oneFile (dir m_url : Bytes) (name : EntryName) (hdir : 0 ∉ dir) :
    Returns (getFileListPage (oneFileEnvironment dir name) dir m_url []).result := by
  have hentries : (oneFileEnvironment dir name).entries [] (cstr dir) = some [name] := by
    rw [cstr_of_notMem hdir]
    exact if_pos rfl
  apply (fileListPage_returns_iff hentries _).mpr
  change filelistLabel ∈ templateLines (some filelistLabel)
  decide

def pageA : PagePath where
  dirs := []
  last := ascii "a"
  dirs_plain := by simp
  last_plain := ⟨by decide, by decide, by decide⟩
  last_ne_nil := by decide

theorem linksReachFile_direct :
    LinksReachFile (oneFileEnvironment (ascii "/srv/a") ⟨ascii "c.txt", by decide⟩)
      { workPath_ := ascii "/srv" } pageA (ascii "c.txt") [] [] := by
  have hname : PlainSegment (ascii "c.txt") := ⟨by decide, by decide, by decide⟩
  obtain ⟨html, hpage⟩ := getFileListPage_oneFile (ascii "/srv/a") pageA.url
    ⟨ascii "c.txt", by decide⟩ (by decide)
  have hentries : (oneFileEnvironment (ascii "/srv/a") ⟨ascii "c.txt", by decide⟩).entries []
      (cstr (showPath (ascii "/srv" ++ pageA.url))) = some [⟨ascii "c.txt", by decide⟩] := rfl
  apply (linksReachFile_iff hname hentries (by decide) hpage).2.mpr
  constructor
  · rfl
  · exact free_of_notMem (a := chr 'd') (by decide) (by decide)
  · exact free_of_notMem (a := chr 'd') (by decide) (by decide)
  · decide
  · exact (lt_maxSize (by decide)).le
  · rfl
  · rfl

def pageAB : PagePath where
  dirs := [ascii "a"]
  last := ascii "b"
  dirs_plain := by
    intro segment hsegment
    rw [List.mem_singleton.mp hsegment]
    exact ⟨by decide, by decide, by decide⟩
  last_plain := ⟨by decide, by decide, by decide⟩
  last_ne_nil := by decide

/-- The links of `/srv/a/b/c.txt` lead to `/a/download/a/b/c.txt` and
`/a/delete/a/b/c.txt`. -/
theorem not_linksReachFile_nested :
    linkPaths pageAB (ascii "c.txt") =
        [some (ascii "/a/download/a/b/c.txt"), some (ascii "/a/delete/a/b/c.txt")] ∧
      ¬ LinksReachFile (oneFileEnvironment (ascii "/srv/a/b") ⟨ascii "c.txt", by decide⟩)
        { workPath_ := ascii "/srv" } pageAB (ascii "c.txt") [] [] := by
  have hname : PlainSegment (ascii "c.txt") := ⟨by decide, by decide, by decide⟩
  refine ⟨linkPaths_eq pageAB hname, ?_⟩
  intro hreach
  have hdirect := (linksReachFile_iff_meetRoutes hname).mp hreach
  exact absurd hdirect.direct (by decide)

end MyFileServer
