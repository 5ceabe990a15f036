import MyFileServer.Http.FileEffects
import MyFileServer.Http.ListingLinks
import MyFileServer.Http.SelfDelimiting

/-!
# The server as a file store

For its users the server is a store: an upload puts a content under a name, a
request for the file gets it, and a delete takes it away.  The file system is
any environment that behaves as a disk, which keeps what was written and
forgets what was removed.
-/

namespace MyFileServer

open Execution CallLog Delimiter

/-! ## The store -/

/-- The contents by name, or by path. -/
abbrev Files (Name : Type) := Name → Option Bytes

inductive Command
  | get (name : EntryName)
  | put (name : EntryName) (content : Bytes)
  | delete (name : EntryName)

inductive StoreReply
  | found (content : Bytes)
  | missing
  | stored
  | deleted

def storeStep (store : Files EntryName) : Command → Files EntryName × StoreReply
  | .get name =>
      (store, match store name with
        | some content => .found content
        | none => .missing)
  | .put name content => (Function.update store name (some content), .stored)
  | .delete name => (Function.update store name none, .deleted)

/-! ## The disk -/

def SysCall.onDisk (files : Files Bytes) : SysCall → Files Bytes
  | .ofstream path true => Function.update files (cstr path) (some [])
  | .write path content =>
      Function.update files (cstr path) (some ((files (cstr path)).getD [] ++ content))
  | .remove path => Function.update files (cstr path) none
  | _ => files

/-- The files after the calls. -/
def afterCalls (files : Files Bytes) (calls : List SysCall) : Files Bytes :=
  calls.foldl SysCall.onDisk files

/-- The answers of a file system that holds these files at first, and in which
`dirs` are the directories. -/
structure Disk (env : Environment) (files : Files Bytes) (dirs : Bytes → Prop) : Prop where
  file : ∀ before path content, afterCalls files before path = some content →
    ∀ hsize : content.length < 2 ^ 63,
      env.status before path = some ⟨.regular, content.length, hsize⟩
  missing : ∀ before path, afterCalls files before path = none → ¬ dirs path →
    env.status before path = none
  opens : ∀ before path content, afterCalls files before path = some content →
    env.descriptor before path ≠ -1
  creates : ∀ before dir, ∀ name : EntryName, dirs dir →
    ¬ dirs (dir ++ ascii "/" ++ name.1) →
      env.creates before (dir ++ ascii "/" ++ name.1) = true

theorem afterCalls_append (files : Files Bytes) (calls calls' : List SysCall) :
    afterCalls files (calls ++ calls') = afterCalls (afterCalls files calls) calls' :=
  List.foldl_append

theorem SysCall.onDisk_of_not_changes {files : Files Bytes} {call : SysCall}
    (hcall : ¬ call.Changes) : call.onDisk files = files := by
  cases call <;> first | rfl | exact absurd trivial hcall

/-- A new file has only what is written to it. -/
theorem SysCall.onDisk_upload (files : Files Bytes) (path content : Bytes) :
    (SysCall.write path content).onDisk ((SysCall.ofstream path true).onDisk files) =
      Function.update files (cstr path) (some content) := by
  change Function.update (Function.update files (cstr path) (some [])) (cstr path)
    (some ((Function.update files (cstr path) (some []) (cstr path)).getD [] ++ content)) = _
  rw [Function.update_self, Function.update_idem]
  rfl

theorem SysCall.onDisk_remove (files : Files Bytes) (path : Bytes) :
    (SysCall.remove path).onDisk files = Function.update files (cstr path) none := rfl

theorem afterCalls_of_reads {files : Files Bytes} {calls : List SysCall}
    (hcalls : ∀ call ∈ calls, ¬ call.Changes) : afterCalls files calls = files := by
  induction calls with
  | nil => rfl
  | cons call calls ih =>
      have hsplit := List.forall_mem_cons.mp hcalls
      change afterCalls (call.onDisk files) calls = files
      rw [SysCall.onDisk_of_not_changes hsplit.1]
      exact ih hsplit.2

theorem afterCalls_upload (files : Files Bytes) (asked path content : Bytes) {calls : List SysCall}
    (hcalls : ∀ call ∈ calls, ¬ call.Changes) :
    afterCalls files (.stat asked :: .ofstream path true :: .write path content :: calls) =
      Function.update files (cstr path) (some content) := by
  rw [← SysCall.onDisk_upload]
  exact afterCalls_of_reads hcalls

theorem afterCalls_delete (files : Files Bytes) (asked path : Bytes) {calls : List SysCall}
    (hcalls : ∀ call ∈ calls, ¬ call.Changes) :
    afterCalls files (.stat asked :: .stat path :: .remove path :: calls) =
      Function.update files (cstr path) none := by
  rw [← SysCall.onDisk_remove]
  exact afterCalls_of_reads hcalls

/-! ## The requests -/

def textFile (workPath_ : Bytes) (name : EntryName) : Bytes :=
  workPath_ ++ ascii "/text/" ++ name.1

/-- The request for a command. -/
inductive Asks (req : HttpRequest) : Command → Prop
  | get (name : EntryName) :
      req.path_ = ascii "/text/" ++ name.1 → req.getHeader (ascii "Range") = [] →
      Asks req (.get name)
  | put (name : EntryName) (content : Bytes) :
      req.path_ = ascii "/upload" → uploadName req = .ok name.1 →
      req.getHeader (ascii "Content-Type") ≠ ascii "image/jpeg" →
      req.getHeader (ascii "Content-Type") ≠ ascii "image/png" →
      uploadContent req.m_string = content → content.length < 2 ^ 63 →
      Asks req (.put name content)
  | delete (name : EntryName) :
      req.path_ = ascii "/delete/text/" ++ name.1 → Asks req (.delete name)

/-- The response with its calls, for the files at first and the calls before the
request. -/
inductive Answers (env : Environment) (files : Files Bytes) (before : List SysCall)
    (res : HttpResponse) (calls : List SysCall) : StoreReply → Prop
  /-- The file that `fd_` was opened for is sent as a whole. -/
  | found (path content : Bytes) :
      res.statusCode_ = .k200Ok → res.body_ = [] → res.needSendFile = true →
      toSizeT (res.len_.getD 0) = content.length →
      res.headers_.lookup contentLengthName = some (decimal content.length) →
      calls = [.stat path, .openFile path] →
      res.fd_ = env.descriptor (before ++ [.stat path]) (cstr path) →
      afterCalls files (before ++ [.stat path]) (cstr path) = some content →
      Answers env files before res calls (.found content)
  | missing : res.statusCode_ = .k404NotFound → res.needSendFile = false →
      Answers env files before res calls .missing
  | stored : res.statusCode_ = .k200Ok → res.body_ = uploadedPage →
      Answers env files before res calls .stored
  | deleted : res.statusCode_ = .k200Ok → res.body_ = deletedPage →
      Answers env files before res calls .deleted

/-- What the work path has to be: no word of a route stands in it, and the
paths of the routes name no file. -/
structure WorkPath (workPath_ : Bytes) (files : Files Bytes) (dirs : Bytes → Prop) : Prop where
  noNul : 0 ∉ workPath_
  noUpload : Free (ascii "/upload") workPath_
  noDelete : Free (ascii "delete") workPath_
  short : workPath_.length + 1 < 2 ^ 31
  text : dirs (workPath_ ++ ascii "/text")
  upload : files (workPath_ ++ ascii "/upload") = none ∧ ¬ dirs (workPath_ ++ ascii "/upload")
  delete : ∀ name : EntryName, files (workPath_ ++ ascii "/delete/text/" ++ name.1) = none ∧
    ¬ dirs (workPath_ ++ ascii "/delete/text/" ++ name.1)
  plain : ∀ name, ¬ dirs (textFile workPath_ name)

structure Serving where
  server : FileServer
  before : List SysCall

structure Served where
  response : HttpResponse
  calls : List SysCall

/-- The part of `onRequest` that comes before the response is written. -/
def serve (env : Environment) (s : Serving) (req : HttpRequest) : Exec (Serving × Served) := do
  let outcome := buildResponse env s.server req s.before
  let (server, response) ← outcome.result
  return (⟨server, s.before ++ outcome.calls⟩, ⟨response, outcome.calls⟩)

@[simp] theorem sendHtml_statusCode_ (code : HttpStatusCode) (html : Bytes) (res : HttpResponse) :
    (sendHtml code html res).statusCode_ = code := rfl

@[simp] theorem sendHtml_body_ (code : HttpStatusCode) (html : Bytes) (res : HttpResponse) :
    (sendHtml code html res).body_ = html := rfl

/-! ## One command -/

section Routes

variable {env : Environment} {before : List SysCall} {server : FileServer}
  {req : HttpRequest} {res : HttpResponse} {path : Bytes}

theorem storeFile_opened {content : Bytes} (hcreates : env.creates before (cstr path) = true) :
    storeFile env path content before =
      ⟨.ok (), [.ofstream path true, .write path content]⟩ := by
  unfold storeFile Environment.ofstream
  rw [perform_bind, hcreates]
  rfl

theorem upload_calls {f_name : Bytes} (hname : uploadName req = .ok f_name)
    (hcreates : env.creates before (cstr (uploadDir path req ++ f_name)) = true) :
    ∃ scanned, (upload env req path res before).calls =
        .ofstream (uploadDir path req ++ f_name) true ::
          .write (uploadDir path req ++ f_name) (uploadContent req.m_string) :: scanned ∧
      ∀ call ∈ scanned, ¬ call.Changes := by
  unfold upload
  rw [hname, lift_ok_bind, bind_of_ok (storeFile_opened hcreates), bind_pure_apply]
  exact ⟨_, rfl, keepsFiles_scanDir _ _⟩

theorem takeRoute_upload (path : Bytes) :
    takeRoute env server req path res .upload =
      upload env req path res >>= fun response => pure (server, response) :=
  rfl

theorem returning_upload_page (path : Bytes) :
    Returning (fun built => built = (server, sendHtml .k200Ok uploadedPage res))
      (takeRoute env server req path res .upload) := by
  have hpage : Returning (fun response => response = sendHtml .k200Ok uploadedPage res)
      (upload env req path res) :=
    returning_bind fun _ => returning_bind fun _ => returning_bind fun _ => returning_pure rfl
  rw [takeRoute_upload]
  refine hpage.bind fun response hresponse => ?_
  rw [hresponse]
  exact returning_pure rfl

theorem returning_delete_page (path : Bytes) :
    Returning (fun built => built = (server, sendHtml .k200Ok deletedPage res))
      (takeRoute env server req path res .delete) := by
  have hpage : Returning (fun response => response = sendHtml .k200Ok deletedPage res)
      (delete env req path res) :=
    returning_bind fun _ => returning_bind fun _ => returning_bind fun _ =>
      returning_bind fun _ => returning_pure rfl
  rw [takeRoute_delete]
  refine hpage.bind fun response hresponse => ?_
  rw [hresponse]
  exact returning_pure rfl

/-- A response whose path is too long for a string is never built. -/
theorem fits_of_setResponseBody {built : FileServer × HttpResponse}
    (hcall : (setResponseBody env server req res before).result = .ok built) :
    server.workPath_.length + req.path_.length ≤ maxSize := by
  unfold setResponseBody at hcall
  obtain ⟨path, hpath, _⟩ := lift_bind_result_eq_ok.mp hcall
  exact (concat_eq_ok.mp hpath).1

/-- The whole file under the path of the request. -/
theorem setResponseBody_whole {size : ℕ} {hsize : size < 2 ^ 63} {built : FileServer × HttpResponse}
    (hstatus : env.status before (cstr (server.workPath_ ++ req.path_)) =
      some ⟨.regular, size, hsize⟩)
    (hrange : req.getHeader (ascii "Range") = [])
    (hcall : (setResponseBody env server req res before).result = .ok built) :
    built = (server, sendWhole size (describeFile (env.descriptor
        (before ++ [.stat (server.workPath_ ++ req.path_)])
          (cstr (server.workPath_ ++ req.path_))) req res)) ∧
      (setResponseBody env server req res before).calls =
        [.stat (server.workPath_ ++ req.path_), .openFile (server.workPath_ ++ req.path_)] := by
  have hfit := fits_of_setResponseBody hcall
  have hsent : sendExisting env req (server.workPath_ ++ req.path_) ⟨.regular, size, hsize⟩ res
      (before ++ [.stat (server.workPath_ ++ req.path_)]) =
        ⟨.ok (sendWhole size (describeFile (env.descriptor
          (before ++ [.stat (server.workPath_ ++ req.path_)])
            (cstr (server.workPath_ ++ req.path_))) req res)),
          [.openFile (server.workPath_ ++ req.path_)]⟩ := by
    unfold sendExisting sendRegular Environment.openFile
    dsimp only
    rw [perform_bind, if_neg (not_not.mpr hrange)]
    rfl
  rw [setResponseBody_of_some hfit hstatus, hsent] at hcall ⊢
  exact ⟨(Except.ok.inj hcall).symm, rfl⟩

/-- A route that is taken because the path of the request names no file. -/
theorem setResponseBody_route {route : Route} {built : FileServer × HttpResponse}
    (hstatus : env.status before (cstr (server.workPath_ ++ req.path_)) = none)
    (hroute : routeOf req.path_ = .ok route)
    (hcall : (setResponseBody env server req res before).result = .ok built) :
    (takeRoute env server req (server.workPath_ ++ req.path_) res route
        (before ++ [.stat (server.workPath_ ++ req.path_)])).result = .ok built ∧
      (setResponseBody env server req res before).calls =
        .stat (server.workPath_ ++ req.path_) ::
          (takeRoute env server req (server.workPath_ ++ req.path_) res route
            (before ++ [.stat (server.workPath_ ++ req.path_)])).calls := by
  have hfit := fits_of_setResponseBody hcall
  rw [setResponseBody_of_none hfit hstatus hroute] at hcall ⊢
  exact ⟨hcall, rfl⟩

end Routes

/-! ## The refinement -/

section Refinement

variable {env : Environment} {files : Files Bytes} {dirs : Bytes → Prop} {workPath_ : Bytes}

/-- The text files are the store, and nothing else has changed. -/
structure Stored (workPath_ : Bytes) (files : Files Bytes) (s : Serving)
    (store : Files EntryName) : Prop where
  workPath_eq : s.server.workPath_ = workPath_
  texts : ∀ name, afterCalls files s.before (textFile workPath_ name) = store name
  others : ∀ path, (∀ name, path ≠ textFile workPath_ name) →
    afterCalls files s.before path = files path
  sized : ∀ name content, store name = some content → content.length < 2 ^ 63

theorem textFile_injective (workPath_ : Bytes) : Function.Injective (textFile workPath_) := by
  intro name name' h
  exact Subtype.ext (List.append_cancel_left h)

theorem notMem_append_name (hwork : 0 ∉ workPath_) {word : Bytes} (hword : 0 ∉ word)
    (name : EntryName) : 0 ∉ workPath_ ++ word ++ name.1 := by
  rw [List.mem_append, List.mem_append, not_or, not_or]
  exact ⟨⟨hwork, hword⟩, name.2.2.2⟩

theorem cstr_textFile (hwork : 0 ∉ workPath_) (name : EntryName) :
    cstr (textFile workPath_ name) = textFile workPath_ name :=
  cstr_of_notMem (notMem_append_name hwork (by decide) name)

/-- A path under the work path that goes on with another byte is no text
file. -/
theorem ne_textFile {word : Bytes} (hword : word.getD 1 0 ≠ chr 't') (name : EntryName) :
    workPath_ ++ word ≠ textFile workPath_ name := by
  intro h
  have hsame : word = ascii "/text/" ++ name.1 := by
    unfold textFile at h
    rw [List.append_assoc] at h
    exact List.append_cancel_left h
  rw [hsame] at hword
  exact hword rfl

theorem ne_favicon {req : HttpRequest} (hword : req.path_.getD 1 0 ≠ chr 'f') :
    req.path_ ≠ ascii "/favicon.ico" := by
  intro h
  rw [h] at hword
  exact hword rfl

theorem uploadDir_text {req : HttpRequest} (hwork : WorkPath workPath_ files dirs)
    (hpath : req.path_ = ascii "/upload")
    (hjpeg : req.getHeader (ascii "Content-Type") ≠ ascii "image/jpeg")
    (hpng : req.getHeader (ascii "Content-Type") ≠ ascii "image/png") :
    uploadDir (workPath_ ++ req.path_) req = workPath_ ++ ascii "/text/" := by
  have hunbordered : Unbordered (ascii "/upload") :=
    @unbordered_of_head_notMem _ (chr '/') (ascii "upload") (by decide)
  have hfound := find_of_occurrence (by decide : ascii "/upload" ≠ []) workPath_ []
  rw [search_line (by decide) hunbordered hwork.noUpload, List.append_nil] at hfound
  have hshort : workPath_.length < 2 ^ 31 := by
    have := hwork.short
    omega
  have htype : ¬ (req.getHeader (ascii "Content-Type") = ascii "image/jpeg" ∨
      req.getHeader (ascii "Content-Type") = ascii "image/png") := not_or.mpr ⟨hjpeg, hpng⟩
  unfold uploadDir
  dsimp only
  rw [hpath, hfound, toSizeT_toInt hshort, List.take_left' rfl, if_neg htype]

theorem creates_textFile (hdisk : Disk env files dirs) (hwork : WorkPath workPath_ files dirs)
    (before : List SysCall) (name : EntryName) :
    env.creates before (cstr (textFile workPath_ name)) = true := by
  have htext : textFile workPath_ name = workPath_ ++ ascii "/text" ++ ascii "/" ++ name.1 := by
    unfold textFile
    simp [ascii]
  have hplain := hwork.plain name
  rw [cstr_textFile hwork.noNul, htext]
  rw [htext] at hplain
  exact hdisk.creates before _ name hwork.text hplain

theorem deletePath_text {req : HttpRequest} (hwork : WorkPath workPath_ files dirs)
    (hfit : workPath_.length + req.path_.length ≤ maxSize) {name : EntryName}
    (hpath : req.path_ = ascii "/delete/text/" ++ name.1) :
    deletePath (workPath_ ++ req.path_) req.path_ = .ok (textFile workPath_ name) := by
  have hsplit : req.path_ = ascii "/delete/" ++ (ascii "text/" ++ name.1) := hpath
  rw [hsplit] at hfit ⊢
  rw [(deletePath_eq_iff hfit).mpr ⟨hwork.noDelete, hwork.short⟩]
  unfold textFile
  simp [ascii]

variable {s next : Serving} {store : Files EntryName} {req : HttpRequest} {served : Served}

/-- Calls that change one text file. -/
theorem Stored.update (hs : Stored workPath_ files s store) {server : FileServer}
    (hserver : server.workPath_ = s.server.workPath_) {calls : List SysCall} {name : EntryName}
    {value : Option Bytes}
    (hcalls : afterCalls (afterCalls files s.before) calls =
      Function.update (afterCalls files s.before) (textFile workPath_ name) value)
    (hsize : ∀ content, value = some content → content.length < 2 ^ 63) :
    Stored workPath_ files ⟨server, s.before ++ calls⟩ (Function.update store name value) where
  workPath_eq := hserver.trans hs.workPath_eq
  texts := by
    intro other
    rw [afterCalls_append, hcalls]
    by_cases hother : other = name
    · rw [hother, Function.update_self, Function.update_self]
    · rw [Function.update_of_ne ((textFile_injective workPath_).ne hother),
        Function.update_of_ne hother]
      exact hs.texts other
  others := by
    intro path hpath
    rw [afterCalls_append, hcalls, Function.update_of_ne (hpath name)]
    exact hs.others path hpath
  sized := by
    intro other content hcontent
    by_cases hother : other = name
    · rw [hother, Function.update_self] at hcontent
      exact hsize content hcontent
    · rw [Function.update_of_ne hother] at hcontent
      exact hs.sized other content hcontent

theorem Stored.reads (hs : Stored workPath_ files s store) {server : FileServer}
    (hserver : server.workPath_ = s.server.workPath_) {calls : List SysCall}
    (hcalls : ∀ call ∈ calls, ¬ call.Changes) :
    Stored workPath_ files ⟨server, s.before ++ calls⟩ store where
  workPath_eq := hserver.trans hs.workPath_eq
  texts := by
    intro name
    rw [afterCalls_append, afterCalls_of_reads hcalls]
    exact hs.texts name
  others := by
    intro path hpath
    rw [afterCalls_append, afterCalls_of_reads hcalls]
    exact hs.others path hpath
  sized := hs.sized

theorem serve_eq_ok (hstep : serve env s req = .ok (next, served)) :
    (buildResponse env s.server req s.before).result = .ok (next.server, served.response) ∧
      next.before = s.before ++ (buildResponse env s.server req s.before).calls ∧
      served.calls = (buildResponse env s.server req s.before).calls := by
  obtain ⟨⟨server, response⟩, hresult, hpair⟩ := bind_eq_ok.mp hstep
  cases hpair
  exact ⟨hresult, rfl, rfl⟩

theorem buildResponse_of_ne (hicon : req.path_ ≠ ascii "/favicon.ico") {server : FileServer} :
    buildResponse env server req =
      setResponseBody env server req { closeConnection_ := req.wantsClose } := by
  unfold buildResponse
  rw [if_neg hicon]

theorem Stored.get_found (hdisk : Disk env files dirs) (hwork : WorkPath workPath_ files dirs)
    (hs : Stored workPath_ files s store) {name : EntryName} {content : Bytes}
    (hstore : store name = some content) (hpath : req.path_ = ascii "/text/" ++ name.1)
    (hrange : req.getHeader (ascii "Range") = [])
    (hstep : serve env s req = .ok (next, served)) :
    Stored workPath_ files next store ∧
      Answers env files s.before served.response served.calls (.found content) := by
  obtain ⟨hresult, hbefore, hcalls⟩ := serve_eq_ok hstep
  rw [buildResponse_of_ne (ne_favicon (by rw [hpath]; exact (by decide : chr 't' ≠ chr 'f')))]
    at hresult hbefore hcalls
  have hfile : cstr (s.server.workPath_ ++ req.path_) = textFile workPath_ name := by
    rw [hs.workPath_eq, hpath, ← List.append_assoc]
    exact cstr_textFile hwork.noNul name
  have htext := hs.texts name
  rw [hstore] at htext
  have hstatus := hdisk.file s.before _ content htext (hs.sized name content hstore)
  rw [← hfile] at hstatus
  obtain ⟨hbuilt, hmade⟩ := setResponseBody_whole hstatus hrange hresult
  obtain ⟨hserver, hresponse⟩ := Prod.mk.inj hbuilt
  have hlater : afterCalls files (s.before ++ [.stat (s.server.workPath_ ++ req.path_)])
      (textFile workPath_ name) = some content := by
    rw [afterCalls_append]
    exact htext
  have hopened := hdisk.opens _ _ _ hlater
  rw [← hfile] at hopened
  have hkept : Stored workPath_ files ⟨next.server, next.before⟩ store := by
    rw [hbefore, hmade, hserver]
    refine hs.reads rfl fun call hcall => ?_
    rcases List.mem_pair.mp hcall with rfl | rfl <;> exact id
  refine ⟨hkept, ?_⟩
  rw [hcalls, hmade, hresponse]
  refine .found (s.server.workPath_ ++ req.path_) content rfl rfl ?_ ?_ ?_ rfl rfl
    (hfile ▸ hlater)
  · exact decide_eq_true hopened
  · have hsize := hs.sized name content hstore
    change toSizeT (content.length : ℤ) = content.length
    unfold toSizeT
    omega
  · exact (Finmap.lookup_insert _).trans (congrArg some (to_string_eq_decimal_iff.mpr rfl))

theorem Stored.get_missing (hdisk : Disk env files dirs) (hwork : WorkPath workPath_ files dirs)
    (hs : Stored workPath_ files s store) {name : EntryName} (hstore : store name = none)
    (hpath : req.path_ = ascii "/text/" ++ name.1)
    (hstep : serve env s req = .ok (next, served)) :
    Stored workPath_ files next store ∧
      Answers env files s.before served.response served.calls .missing := by
  obtain ⟨hresult, hbefore, _⟩ := serve_eq_ok hstep
  rw [buildResponse_of_ne (ne_favicon (by rw [hpath]; exact (by decide : chr 't' ≠ chr 'f')))]
    at hresult hbefore
  have hstatus : env.status s.before (cstr (s.server.workPath_ ++ req.path_)) = none := by
    rw [hs.workPath_eq, hpath, ← List.append_assoc]
    change env.status s.before (cstr (textFile workPath_ name)) = none
    rw [cstr_textFile hwork.noNul]
    exact hdisk.missing s.before _ ((hs.texts name).trans hstore) (hwork.plain name)
  have hroute : routeOf req.path_ = .ok .notFound := by
    rw [hpath]
    rfl
  obtain ⟨htaken, hmade⟩ := setResponseBody_route hstatus hroute hresult
  obtain ⟨hserver, hresponse⟩ := Prod.mk.inj (Except.ok.inj htaken)
  have hkept : Stored workPath_ files ⟨next.server, next.before⟩ store := by
    rw [hbefore, hmade, ← hserver]
    refine hs.reads rfl fun call hcall => ?_
    rw [List.mem_singleton.mp hcall]
    exact id
  refine ⟨hkept, ?_⟩
  rw [← hresponse]
  exact .missing rfl rfl

theorem Stored.get (hdisk : Disk env files dirs) (hwork : WorkPath workPath_ files dirs)
    (hs : Stored workPath_ files s store) {name : EntryName}
    (hpath : req.path_ = ascii "/text/" ++ name.1) (hrange : req.getHeader (ascii "Range") = [])
    (hstep : serve env s req = .ok (next, served)) :
    Stored workPath_ files next store ∧
      Answers env files s.before served.response served.calls
        (storeStep store (.get name)).2 := by
  unfold storeStep
  cases hstore : store name with
  | some content =>
      simp only [hstore]
      exact hs.get_found hdisk hwork hstore hpath hrange hstep
  | none =>
      simp only [hstore]
      exact hs.get_missing hdisk hwork hstore hpath hstep

/-- The path of a route names no file in any state of the run. -/
theorem Stored.status_route (hdisk : Disk env files dirs) (hs : Stored workPath_ files s store)
    (hnul : 0 ∉ workPath_ ++ req.path_) (hword : req.path_.getD 1 0 ≠ chr 't')
    (habsent : files (workPath_ ++ req.path_) = none ∧ ¬ dirs (workPath_ ++ req.path_)) :
    env.status s.before (cstr (s.server.workPath_ ++ req.path_)) = none := by
  rw [hs.workPath_eq, cstr_of_notMem hnul]
  refine hdisk.missing s.before _ ?_ habsent.2
  rw [hs.others _ (ne_textFile hword), habsent.1]

/-- A route that changes one text file and answers with a page. -/
theorem Stored.change (hs : Stored workPath_ files s store) {name : EntryName}
    {value : Option Bytes} {route : Route} {page : Bytes}
    (hicon : req.path_ ≠ ascii "/favicon.ico") (hroute : routeOf req.path_ = .ok route)
    (hstatus : env.status s.before (cstr (s.server.workPath_ ++ req.path_)) = none)
    (hpage : Returning
      (fun built => built =
        (s.server, sendHtml .k200Ok page { closeConnection_ := req.wantsClose }))
      (takeRoute env s.server req (s.server.workPath_ ++ req.path_)
        { closeConnection_ := req.wantsClose } route))
    (hcalls : afterCalls (afterCalls files s.before)
        (.stat (s.server.workPath_ ++ req.path_) ::
          (takeRoute env s.server req (s.server.workPath_ ++ req.path_)
            { closeConnection_ := req.wantsClose } route
              (s.before ++ [.stat (s.server.workPath_ ++ req.path_)])).calls) =
      Function.update (afterCalls files s.before) (textFile workPath_ name) value)
    (hsize : ∀ content, value = some content → content.length < 2 ^ 63)
    (hstep : serve env s req = .ok (next, served)) :
    Stored workPath_ files next (Function.update store name value) ∧
      served.response.statusCode_ = .k200Ok ∧ served.response.body_ = page := by
  obtain ⟨hresult, hbefore, _⟩ := serve_eq_ok hstep
  rw [buildResponse_of_ne hicon] at hresult hbefore
  obtain ⟨htaken, hmade⟩ := setResponseBody_route hstatus hroute hresult
  obtain ⟨hserver, hresponse⟩ := Prod.mk.inj (hpage _ _ htaken)
  have hkept : Stored workPath_ files ⟨next.server, next.before⟩
      (Function.update store name value) := by
    rw [hbefore, hserver, hmade]
    exact hs.update rfl hcalls hsize
  refine ⟨hkept, ?_⟩
  rw [hresponse]
  exact ⟨sendHtml_statusCode_ _ _ _, sendHtml_body_ _ _ _⟩

theorem Stored.put (hdisk : Disk env files dirs) (hwork : WorkPath workPath_ files dirs)
    (hs : Stored workPath_ files s store) {name : EntryName} {content : Bytes}
    (hasks : Asks req (.put name content)) (hstep : serve env s req = .ok (next, served)) :
    Stored workPath_ files next (storeStep store (.put name content)).1 ∧
      Answers env files s.before served.response served.calls .stored := by
  cases hasks with
  | put _ _ hpath hname hjpeg hpng hcontent hsize =>
      have hnul : 0 ∉ workPath_ ++ req.path_ := by
        rw [hpath, List.mem_append, not_or]
        exact ⟨hwork.noNul, by decide⟩
      have hstatus := hs.status_route hdisk hnul (by rw [hpath]; decide)
        (by rw [hpath]; exact hwork.upload)
      have htarget : uploadDir (s.server.workPath_ ++ req.path_) req ++ name.1 =
          textFile workPath_ name := by
        rw [hs.workPath_eq, uploadDir_text hwork hpath hjpeg hpng]
        rfl
      have hcreates := creates_textFile hdisk hwork
        (s.before ++ [.stat (s.server.workPath_ ++ req.path_)]) name
      rw [← htarget] at hcreates
      obtain ⟨scanned, hcalls, hscanned⟩ :=
        @upload_calls _ _ _ { closeConnection_ := req.wantsClose } _ _ hname hcreates
      have hlimit : ∀ written, some content = some written → written.length < 2 ^ 63 :=
        fun _ h => Option.some.inj h ▸ hsize
      obtain ⟨hkept, hanswer⟩ := hs.change (ne_favicon (by rw [hpath]; decide))
        (by rw [hpath]; decide) hstatus (returning_upload_page _) (by
          rw [takeRoute_upload, bind_pure_calls, hcalls, htarget, hcontent,
            afterCalls_upload _ _ _ _ hscanned, cstr_textFile hwork.noNul])
        hlimit hstep
      exact ⟨hkept, .stored hanswer.1 hanswer.2⟩

theorem Stored.delete (hdisk : Disk env files dirs) (hwork : WorkPath workPath_ files dirs)
    (hs : Stored workPath_ files s store) {name : EntryName}
    (hpath : req.path_ = ascii "/delete/text/" ++ name.1)
    (hstep : serve env s req = .ok (next, served)) :
    Stored workPath_ files next (storeStep store (.delete name)).1 ∧
      Answers env files s.before served.response served.calls .deleted := by
  have hicon : req.path_ ≠ ascii "/favicon.ico" :=
    ne_favicon (by rw [hpath]; exact (by decide : chr 'd' ≠ chr 'f'))
  have hroute : routeOf req.path_ = .ok .delete := by
    rw [hpath]
    rfl
  have hnul : 0 ∉ workPath_ ++ req.path_ := by
    rw [hpath, ← List.append_assoc]
    exact notMem_append_name hwork.noNul (by decide) name
  have hword : req.path_.getD 1 0 ≠ chr 't' := by
    rw [hpath]
    exact (by decide : chr 'd' ≠ chr 't')
  have hstatus := hs.status_route hdisk hnul hword (by
    rw [hpath, ← List.append_assoc]
    exact hwork.delete name)
  have htarget : deletePath (s.server.workPath_ ++ req.path_) req.path_ =
      .ok (textFile workPath_ name) := by
    have hresult := (serve_eq_ok hstep).1
    rw [buildResponse_of_ne hicon] at hresult
    have hfit := fits_of_setResponseBody hresult
    rw [hs.workPath_eq] at hfit ⊢
    exact deletePath_text hwork hfit hpath
  obtain ⟨scanned, hcalls, hscanned⟩ := delete_calls htarget
  obtain ⟨hkept, hanswer⟩ := hs.change hicon hroute hstatus (returning_delete_page _) (by
      rw [takeRoute_delete, bind_pure_calls, hcalls, afterCalls_delete _ _ _ hscanned,
        cstr_textFile hwork.noNul])
    (fun _ h => absurd h.symm (Option.some_ne_none _)) hstep
  exact ⟨hkept, .deleted hanswer.1 hanswer.2⟩

theorem Stored.step (hdisk : Disk env files dirs) (hwork : WorkPath workPath_ files dirs)
    (hs : Stored workPath_ files s store) {command : Command} (hasks : Asks req command)
    (hstep : serve env s req = .ok (next, served)) :
    Stored workPath_ files next (storeStep store command).1 ∧
      Answers env files s.before served.response served.calls
        (storeStep store command).2 := by
  cases command with
  | get name =>
      cases hasks with
      | get _ hpath hrange => exact hs.get hdisk hwork hpath hrange hstep
  | put name content => exact hs.put hdisk hwork hasks hstep
  | delete name =>
      cases hasks with
      | delete _ hpath => exact hs.delete hdisk hwork hpath hstep

/-- The replies of the store to the commands, each answered by the response to
its request. -/
def RepliesMatch (env : Environment) (files : Files Bytes)
    (calls : List (Call Serving HttpRequest Served)) (replies : List StoreReply) : Prop :=
  List.Forall₂ (fun call reply => Answers env files call.pre.before
    call.output.response call.output.calls reply) calls replies

/-- After any run of uploads, requests for files and deletes the text files
are the contents of the store, and every response is the reply of the store. -/
theorem serve_refines_store (hdisk : Disk env files dirs)
    (hwork : WorkPath workPath_ files dirs) (hs : Stored workPath_ files s store)
    {requests : List HttpRequest} {commands : List Command}
    (hasks : List.Forall₂ Asks requests commands) {final : Serving}
    {calls : List (Call Serving HttpRequest Served)}
    (hrun : run (serve env) s requests = .ok (final, calls)) :
    Stored workPath_ files final (specRun storeStep store commands).1 ∧
      RepliesMatch env files calls (specRun storeStep store commands).2 := by
  induction hasks generalizing s store calls with
  | nil =>
      obtain ⟨rfl, rfl⟩ := run_nil_eq_ok.mp hrun
      exact ⟨hs, .nil⟩
  | cons hfirst _ ih =>
      obtain ⟨next, served, rest, hstep, hrest, rfl⟩ := run_cons_eq_ok.mp hrun
      obtain ⟨hnext, hanswer⟩ := hs.step hdisk hwork hfirst hstep
      obtain ⟨hfinal, hlater⟩ := ih hnext hrest
      exact ⟨hfinal, .cons hanswer hlater⟩

end Refinement

/-! ### An upload, a request for the file, and a delete -/

theorem page_lt : 4096 < 2 ^ 63 := by
  decide

/-- The disk whose directories are these. -/
def diskOf (files : Files Bytes) (directories : List Bytes) : Environment where
  status before path :=
    match afterCalls files before path with
    | some content =>
        if hsize : content.length < 2 ^ 63 then some ⟨.regular, content.length, hsize⟩ else none
    | none => if path ∈ directories then some ⟨.directory, 4096, page_lt⟩ else none
  descriptor before path := if (afterCalls files before path).isSome then 3 else -1
  entries _ path := if path ∈ directories then some [] else none
  creates _ path := decide (path ∉ directories)

theorem disk_diskOf (files : Files Bytes) (directories : List Bytes) :
    Disk (diskOf files directories) files (· ∈ directories) where
  file := by
    intro before path content hcontent hsize
    simp only [diskOf, hcontent, dif_pos hsize]
  missing := by
    intro before path hnone hdir
    simp only [diskOf, hnone, if_neg hdir]
  opens := by
    intro before path content hcontent
    simp [diskOf, hcontent]
  creates := by
    intro before dir name _ hplain
    exact decide_eq_true hplain

def noteName : EntryName := ⟨ascii "note.txt", by decide⟩

def noteUpload : HttpRequest where
  method_ := .kPost
  path_ := ascii "/upload"
  m_string := ascii "hello\r\n-----------------7d0--\r\n"
  headers_ := (∅ : Headers).insert (ascii "Content-Disposition")
    (ascii "form-data; filename=\"note.txt\"")

def noteRequests : List HttpRequest :=
  [noteUpload,
    { method_ := .kGet, path_ := ascii "/text/note.txt" },
    { method_ := .kGet, path_ := ascii "/delete/text/note.txt" },
    { method_ := .kGet, path_ := ascii "/text/note.txt" }]

def noteCommands : List Command :=
  [.put noteName (ascii "hello\r\n"), .get noteName, .delete noteName, .get noteName]

def noteServing : Serving := ⟨missingServer, []⟩

def noteDirs : List Bytes := [ascii "/srv/files", ascii "/srv/files/text"]

theorem length_noteDirs : ∀ dir ∈ noteDirs, dir.length ≤ 15 := by
  decide

theorem workPath_note : WorkPath (ascii "/srv/files") (fun _ => none) (· ∈ noteDirs) where
  noNul := by decide
  noUpload := by
    rw [Free]
    decide
  noDelete := by
    rw [Free]
    decide
  short := by decide
  text := by decide
  upload := by decide
  delete := by
    intro name
    refine ⟨rfl, fun hdir => ?_⟩
    have hlength := length_noteDirs _ hdir
    rw [List.length_append, List.length_append] at hlength
    have hword : 15 < (ascii "/srv/files").length + (ascii "/delete/text/").length := by decide
    omega
  plain := by
    intro name hdir
    have hlength := length_noteDirs _ hdir
    unfold textFile at hlength
    rw [List.length_append, List.length_append] at hlength
    have hword : 15 < (ascii "/srv/files").length + (ascii "/text/").length := by decide
    omega

theorem name_note : uploadName noteUpload = .ok noteName.1 := by
  decide +kernel

theorem content_note : uploadContent noteUpload.m_string = ascii "hello\r\n" := by
  decide +kernel

theorem asks_note : List.Forall₂ Asks noteRequests noteCommands := by
  refine .cons (.put noteName _ rfl name_note (by decide) (by decide) content_note (by decide)) ?_
  refine .cons (.get noteName rfl (by decide)) ?_
  exact .cons (.delete noteName rfl) (.cons (.get noteName rfl (by decide)) .nil)

theorem stored_note : Stored (ascii "/srv/files") (fun _ => none) noteServing fun _ => none where
  workPath_eq := rfl
  texts := fun _ => rfl
  others := fun _ _ => rfl
  sized := fun _ _ h => absurd h.symm (Option.some_ne_none _)

theorem serve_note : (run (serve (diskOf (fun _ => none) noteDirs)) noteServing
    noteRequests).isOk = true := by
  decide +kernel

theorem serve_refines_store_note : ∃ final calls,
    run (serve (diskOf (fun _ => none) noteDirs)) noteServing noteRequests =
      .ok (final, calls) ∧
    Stored (ascii "/srv/files") (fun _ => none) final
      (specRun storeStep (fun _ => none) noteCommands).1 ∧
    RepliesMatch (diskOf (fun _ => none) noteDirs) (fun _ => none) calls
      [.stored, .found (ascii "hello\r\n"), .deleted, .missing] := by
  cases hrun : run (serve (diskOf (fun _ => none) noteDirs)) noteServing noteRequests with
  | error fault => exact absurd serve_note (by simp [hrun, Except.isOk, Except.toBool])
  | ok result =>
      obtain ⟨hstored, hreplies⟩ := serve_refines_store (disk_diskOf _ noteDirs) workPath_note
        stored_note asks_note hrun
      exact ⟨result.1, result.2, rfl, hstored, hreplies⟩

end MyFileServer
