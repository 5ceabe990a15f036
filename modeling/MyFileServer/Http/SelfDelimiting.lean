import MyFileServer.Base.Decimal
import MyFileServer.Http.Handler
import MyFileServer.Http.ResponseFormat

/-!
# Where a response ends

A client finds the end of a response in two ways: the server says that it
closes the connection and does so, or a header gives the number of the bytes
behind the empty line.  The server writes the second only for files.
-/

namespace MyFileServer

open Execution CallLog Delimiter Buffer

def contentLengthName : Bytes := ascii "Content-Length"

/-- The bytes of files that are queued. -/
def queuedFileBytes (actions : List ConnAction) : ℕ :=
  (actions.map fun
    | .sendFile _ count => count
    | _ => 0).sum

/-- For the header lines and the body of a response and the actions after it. -/
def SelfDelimiting (lines : List HeaderLine) (body : Bytes)
    (rest : List ConnAction) : Prop :=
  ((ascii "Connection", ascii "close") ∈ lines ∧ .shutdown ∈ rest) ∨
    ∃ n, (contentLengthName, decimal n) ∈ lines ∧
      n = body.length + queuedFileBytes rest

/-! ## What is queued -/

def closeActions (response : HttpResponse) : List ConnAction :=
  if response.closeConnection_ then [.shutdown] else []

theorem sendResponse_spec {order : (headers : Headers) → Traversal headers}
    {response : HttpResponse} {actions : List ConnAction}
    (hsend : sendResponse order response = .ok actions) :
    actions = .send (response.text (order response.headers_)) ::
      (fileActions response ++ closeActions response) := by
  unfold sendResponse at hsend
  obtain ⟨buf, hbuf, hactions⟩ := bind_eq_ok.mp hsend
  have htext := (HttpResponse.appendToBuffer_spec initial_inv hbuf).2
  have hempty : Buffer.initial.readable = [] := by decide
  rw [hempty, List.nil_append] at htext
  cases hactions
  rw [htext]
  rfl

theorem mem_traversal_iff {headers : Headers} (order : Traversal headers)
    (key value : Bytes) :
    (key, value) ∈ order.1 ↔ headers.lookup key = some value := by
  rw [Finmap.lookup_eq_some_iff, ← Multiset.mem_coe, order.2, headerLines,
    Multiset.mem_map]
  constructor
  · intro h
    obtain ⟨⟨key', value'⟩, hentry, heq⟩ := h
    cases heq
    exact hentry
  · intro hentry
    exact ⟨_, hentry, rfl⟩

theorem contentLength_mem_iff (response : HttpResponse)
    (order : Traversal response.headers_) (value : Bytes) :
    (contentLengthName, value) ∈ response.connectionLine :: order.1 ↔
      response.headers_.lookup contentLengthName = some value := by
  rw [List.mem_cons, mem_traversal_iff, or_iff_right]
  intro hline
  have hname : contentLengthName = response.connectionLine.1 :=
    congrArg Prod.fst hline
  unfold HttpResponse.connectionLine HttpResponse.statusStart at hname
  revert hname
  cases response.closeConnection_ <;> cases response.statusCode_ <;> decide

theorem close_iff (response : HttpResponse) (order : Traversal response.headers_) :
    ((ascii "Connection", ascii "close") ∈ response.connectionLine :: order.1 ∧
        ConnAction.shutdown ∈ fileActions response ++ closeActions response) ↔
      response.closeConnection_ = true := by
  unfold fileActions closeActions HttpResponse.connectionLine
  constructor
  · intro h
    by_contra hopen
    have hshutdown := h.2
    rw [if_neg hopen] at hshutdown
    split at hshutdown <;> simp at hshutdown
  · intro hclose
    rw [if_pos hclose, if_pos hclose]
    simp

theorem queuedFileBytes_eq (response : HttpResponse) :
    queuedFileBytes (fileActions response ++ closeActions response) =
      if response.fd_ = -1 then 0 else toSizeT (response.len_.getD 0) := by
  unfold queuedFileBytes fileActions closeActions HttpResponse.needSendFile
  by_cases hfd : response.fd_ = -1 <;> cases response.closeConnection_ <;>
    simp [hfd]

/-- The response announces the number of the bytes behind its empty line. -/
def Announces (response : HttpResponse) : Prop :=
  ∃ n, response.headers_.lookup contentLengthName = some (decimal n) ∧
    n = response.body_.length +
      if response.fd_ = -1 then 0 else toSizeT (response.len_.getD 0)

/-- A response delimits itself by the close of the connection or by its header
`Content-Length`. -/
theorem selfDelimiting_iff (response : HttpResponse)
    (order : Traversal response.headers_) :
    SelfDelimiting (response.connectionLine :: order.1) response.body_
        (fileActions response ++ closeActions response) ↔
      response.closeConnection_ = true ∨
        Announces response := by
  unfold SelfDelimiting Announces
  rw [close_iff, queuedFileBytes_eq]
  simp only [contentLength_mem_iff]

/-! ## What is built -/

/-- A response without a length. -/
def Page (response : HttpResponse) : Prop :=
  response.headers_.lookup contentLengthName = none

/-- A response for a file: the length that it announces, the length that it
sends, and the descriptor. -/
structure SendsFile (announced count fd : ℤ) (response : HttpResponse) : Prop where
  announced_eq :
    response.headers_.lookup contentLengthName = some (to_string announced)
  len_eq : response.len_ = some count
  fd_eq : response.fd_ = fd
  body_eq : response.body_ = []

theorem page_of_headers_empty {res : HttpResponse} (hres : res.headers_ = ∅)
    (code : HttpStatusCode) (html : Bytes) : Page (sendHtml code html res) := by
  change (res.headers_.insert (ascii "Content-Type") _).lookup _ = none
  rw [hres, Finmap.lookup_insert_of_ne _ (by decide)]
  exact Finmap.lookup_empty _

theorem sendsFile_sendWhole {res : HttpResponse} {fd : ℤ} (hbody : res.body_ = [])
    (hfd : res.fd_ = fd) (len : ℤ) : SendsFile len len fd (sendWhole len res) where
  announced_eq := Finmap.lookup_insert _
  len_eq := rfl
  fd_eq := hfd
  body_eq := hbody

theorem SendsFile.announces_iff {announced count fd : ℤ} {response : HttpResponse}
    (hfile : SendsFile announced count fd response) :
    Announces response ↔
      announced = if fd = -1 then 0 else (toSizeT count : ℤ) := by
  unfold Announces
  rw [hfile.announced_eq, hfile.len_eq, hfile.fd_eq, hfile.body_eq]
  simp only [Option.some.injEq, to_string_eq_decimal_iff, Option.getD_some,
    List.length_nil, Nat.zero_add, exists_eq_right]
  split <;> rfl

theorem toSizeT_eq_iff {i : ℤ} (hlow : -2 ^ 63 ≤ i) (hhigh : i < 2 ^ 63) :
    i = (toSizeT i : ℤ) ↔ 0 ≤ i := by
  unfold toSizeT
  omega

/-- The number of bytes of a slice after `static_cast<int>`. -/
theorem toSizeT_int_eq_iff {i : ℤ} (hlow : -2 ^ 63 ≤ i) (hhigh : i < 2 ^ 63) :
    i = (toSizeT (Int.bmod i (2 ^ 32)) : ℤ) ↔ 0 ≤ i ∧ i < 2 ^ 31 := by
  unfold toSizeT
  rw [Int.bmod_def]
  split_ifs <;> omega

theorem off64_bounds (i : ℤ) : -2 ^ 63 ≤ off64 i ∧ off64 i < 2 ^ 63 := by
  unfold off64
  rw [Int.bmod_def]
  split_ifs <;> omega

/-! ## What the functions of the handler return -/

section Results

variable {env : Environment} {before : List SysCall} {server : FileServer}
  {req : HttpRequest} {path : Bytes} {res : HttpResponse}

/-- The response with a status, a type and a text. -/
def IsHtml (res response : HttpResponse) : Prop :=
  ∃ code html, response = sendHtml code html res

theorem isHtml_sendHtml (code : HttpStatusCode) (html : Bytes) :
    IsHtml res (sendHtml code html res) :=
  ⟨code, html, rfl⟩

theorem returning_sendDirectory :
    Returning (IsHtml res) (sendDirectory env req path res) := by
  unfold sendDirectory
  split
  · exact returning_pure (isHtml_sendHtml _ _)
  · exact returning_bind fun _ => returning_bind fun _ =>
      returning_pure (isHtml_sendHtml _ _)

theorem returning_login {name password : Bytes} :
    Returning (IsHtml res) (login env server name password res) := by
  unfold login
  split
  · exact returning_bind fun _ => returning_pure (isHtml_sendHtml _ _)
  · exact returning_pure (isHtml_sendHtml _ _)

theorem returning_register {name password : Bytes} :
    Returning (fun built => IsHtml res built.2)
      (register env server name password res) :=
  returning_bind fun _ => returning_bind fun _ =>
    returning_pure (isHtml_sendHtml _ _)

theorem returning_upload :
    Returning (IsHtml res) (upload env req path res) :=
  returning_bind fun _ => returning_bind fun _ => returning_bind fun _ =>
    returning_pure (isHtml_sendHtml _ _)

theorem returning_delete :
    Returning (IsHtml res) (delete env req path res) :=
  returning_bind fun _ => returning_bind fun _ => returning_bind fun _ =>
    returning_bind fun _ => returning_pure (isHtml_sendHtml _ _)

/-- Every route but the download answers with a page. -/
theorem returning_takeRoute {route : Route} (hroute : route ≠ .download) :
    Returning (fun built => IsHtml res built.2)
      (takeRoute env server req path res route) := by
  unfold takeRoute
  cases route with
  | signUp => exact returning_pure (isHtml_sendHtml _ _)
  | signIn => exact returning_pure (isHtml_sendHtml _ _)
  | notFound => exact returning_pure (isHtml_sendHtml _ _)
  | login =>
      exact returning_bind fun form => returning_login.bind fun _ hhtml =>
        returning_pure hhtml
  | register => exact returning_bind fun form => returning_register
  | download => exact absurd rfl hroute
  | upload => exact returning_upload.bind fun _ hhtml => returning_pure hhtml
  | delete => exact returning_delete.bind fun _ hhtml => returning_pure hhtml

theorem openFile_bind_result {α : Type} {f : ℤ → Sys α} :
    ((env.openFile path >>= f) before).result =
      (f (env.descriptor before (cstr path)) (before ++ [.openFile path])).result :=
  perform_bind_result

/-- `need_len` for the bounds of a slice. -/
def needLen (bounds : ℤ × ℤ) : ℤ := off64 (bounds.2 - bounds.1 + 1)

theorem sendRange_result {range : Bytes} {len fd : ℤ} {response : HttpResponse}
    (hcall : (sendRange range len fd res before).result = .ok response)
    (hbody : res.body_ = []) (hfd : res.fd_ = fd) :
    response.closeConnection_ = res.closeConnection_ ∧
      ∃ bounds, parseRange range len = .ok bounds ∧
        SendsFile (needLen bounds) (Int.bmod (needLen bounds) (2 ^ 32)) fd
          response := by
  unfold sendRange at hcall
  obtain ⟨bounds, hbounds, hseek⟩ := bind_result_eq_ok.mp hcall
  obtain ⟨_, _, hresult⟩ := bind_result_eq_ok.mp hseek
  rw [← Except.ok.inj hresult]
  exact ⟨rfl, bounds, hbounds, Finmap.lookup_insert _, rfl, hfd, hbody⟩

theorem sendRegular_result {len : ℤ} {response : HttpResponse}
    (hbody : res.body_ = [])
    (hcall : (sendRegular env req path len res before).result = .ok response) :
    response.closeConnection_ = res.closeConnection_ ∧
      if req.getHeader (ascii "Range") = [] then
        SendsFile len len (env.descriptor before (cstr path)) response
      else
        ∃ bounds, parseRange (req.getHeader (ascii "Range")) len = .ok bounds ∧
          SendsFile (needLen bounds) (Int.bmod (needLen bounds) (2 ^ 32))
            (env.descriptor before (cstr path)) response := by
  unfold sendRegular at hcall
  rw [openFile_bind_result] at hcall
  generalize env.descriptor before (cstr path) = fd at *
  have hdescribed : (describeFile fd req res).body_ = [] := hbody
  have hfd : (describeFile fd req res).fd_ = fd := rfl
  by_cases hrange : req.getHeader (ascii "Range") = []
  · rw [if_neg (not_not.mpr hrange)] at hcall
    rw [if_pos hrange, ← Except.ok.inj hcall]
    exact ⟨rfl, sendsFile_sendWhole hdescribed hfd len⟩
  · rw [if_pos hrange] at hcall
    rw [if_neg hrange]
    have hsent := sendRange_result hcall hdescribed hfd
    exact hsent

/-- The length of a download: the size of the file, or what memory holds when
there is none. -/
def downloadLen (env : Environment) (before : List SysCall) (path : Bytes) : Off64 :=
  match env.status before (cstr path) with
  | some buffer => ⟨buffer.st_size, off64_of_lt buffer.size_lt⟩
  | none => env.staleSize before

theorem statSize_apply :
    statSize env path before =
      ⟨.ok (downloadLen env before path).1, [.stat path]⟩ := by
  have hhistory : (history : Sys _) before = ⟨.ok before, []⟩ := rfl
  have hstat : env.stat path (before ++ []) =
      ⟨.ok (env.status before (cstr path)), [.stat path]⟩ := by
    rw [List.append_nil]
    rfl
  unfold statSize downloadLen
  rw [bind_of_ok hhistory, bind_of_ok hstat]
  cases env.status before (cstr path) <;> rfl

theorem download_result {response : HttpResponse} (hbody : res.body_ = [])
    (hcall : (download env req path res before).result = .ok response) :
    response.closeConnection_ = res.closeConnection_ ∧
      ∃ target, downloadPath path req.path_ = .ok target ∧
        SendsFile (downloadLen env before target).1 (downloadLen env before target).1
          (env.descriptor (before ++ [SysCall.stat target]) (cstr target)) response := by
  unfold download at hcall
  obtain ⟨target, htarget, hstat⟩ := lift_bind_result_eq_ok.mp hcall
  rw [bind_of_ok statSize_apply, openFile_bind_result] at hstat
  refine ⟨?_, target, htarget, ?_⟩
  · rw [← Except.ok.inj hstat]
    rfl
  · rw [← Except.ok.inj hstat]
    apply sendsFile_sendWhole
    · exact hbody
    · rfl

end Results

/-! ## Requests whose response delimits itself -/

/-- The length of the file that is announced is the number of its bytes that
are queued.  The calls before are the ones that lead to the file. -/
inductive AnnouncesSent (env : Environment) (before : List SysCall)
    (path : Bytes) (req : HttpRequest) : Prop
  /-- A file as a whole, opened or empty. -/
  | whole (buffer : FileStatus) :
      env.status before (cstr path) = some buffer → buffer.kind = .regular →
      req.getHeader (ascii "Range") = [] →
      (env.descriptor (before ++ [SysCall.stat path]) (cstr path) ≠ -1 ∨
        buffer.st_size = 0) →
      AnnouncesSent env before path req
  /-- A slice whose length is a positive `int`, or 0. -/
  | slice (buffer : FileStatus) (bounds : ℤ × ℤ) :
      env.status before (cstr path) = some buffer → buffer.kind = .regular →
      req.getHeader (ascii "Range") ≠ [] →
      parseRange (req.getHeader (ascii "Range")) buffer.st_size = .ok bounds →
      0 ≤ needLen bounds → needLen bounds < 2 ^ 31 →
      (env.descriptor (before ++ [SysCall.stat path]) (cstr path) ≠ -1 ∨
        needLen bounds = 0) →
      AnnouncesSent env before path req
  /-- A download, whose length is not one of a file when there is none. -/
  | download (target : Bytes) :
      env.status before (cstr path) = none →
      routeOf req.path_ = .ok .download →
      downloadPath path req.path_ = .ok target →
      0 ≤ (downloadLen env (before ++ [SysCall.stat path]) target).1 →
      (env.descriptor (before ++ [SysCall.stat path] ++ [SysCall.stat target])
          (cstr target) ≠ -1 ∨
        (downloadLen env (before ++ [SysCall.stat path]) target).1 = 0) →
      AnnouncesSent env before path req

theorem wholeFile_iff {len fd : ℤ} (hlow : -2 ^ 63 ≤ len) (hhigh : len < 2 ^ 63) :
    (len = if fd = -1 then 0 else (toSizeT len : ℤ)) ↔
      0 ≤ len ∧ (fd ≠ -1 ∨ len = 0) := by
  split
  next hfd => simp [hfd]; omega
  next hfd => rw [toSizeT_eq_iff hlow hhigh]; simp [hfd]

theorem slice_iff (bounds : ℤ × ℤ) {fd : ℤ} :
    (needLen bounds =
        if fd = -1 then 0 else (toSizeT (Int.bmod (needLen bounds) (2 ^ 32)) : ℤ)) ↔
      0 ≤ needLen bounds ∧ needLen bounds < 2 ^ 31 ∧
        (fd ≠ -1 ∨ needLen bounds = 0) := by
  obtain ⟨hlow, hhigh⟩ := off64_bounds (bounds.2 - bounds.1 + 1)
  change -2 ^ 63 ≤ needLen bounds at hlow
  change needLen bounds < 2 ^ 63 at hhigh
  split
  next hfd => simp [hfd]; omega
  next hfd => rw [toSizeT_int_eq_iff hlow hhigh]; simp [hfd]

theorem IsHtml.not_announces {res response : HttpResponse}
    (hhtml : IsHtml res response) (hres : res.headers_ = ∅) :
    ¬ Announces response := by
  obtain ⟨code, html, rfl⟩ := hhtml
  intro h
  obtain ⟨n, hlookup, _⟩ := h
  rw [page_of_headers_empty hres] at hlookup
  cases hlookup

theorem IsHtml.close_eq {res response : HttpResponse} (hhtml : IsHtml res response) :
    response.closeConnection_ = res.closeConnection_ := by
  obtain ⟨code, html, rfl⟩ := hhtml
  rfl

section Request

variable {env : Environment} {before : List SysCall} {server : FileServer}
  {req : HttpRequest} {path : Bytes} {res : HttpResponse}

/-- When the path names a file. -/
theorem announcesSent_some_iff {buffer : FileStatus}
    (hstatus : env.status before (cstr path) = some buffer) :
    AnnouncesSent env before path req ↔
      buffer.kind = .regular ∧
        if req.getHeader (ascii "Range") = [] then
          env.descriptor (before ++ [SysCall.stat path]) (cstr path) ≠ -1 ∨
            buffer.st_size = 0
        else
          ∃ bounds,
            parseRange (req.getHeader (ascii "Range")) buffer.st_size = .ok bounds ∧
            0 ≤ needLen bounds ∧ needLen bounds < 2 ^ 31 ∧
            (env.descriptor (before ++ [SysCall.stat path]) (cstr path) ≠ -1 ∨
              needLen bounds = 0) := by
  constructor
  · intro hsent
    cases hsent with
    | whole buffer' hstatus' hkind hrange hopened =>
        rw [hstatus] at hstatus'
        rw [Option.some.inj hstatus', if_pos hrange]
        exact ⟨hkind, hopened⟩
    | slice buffer' bounds hstatus' hkind hrange hbounds hlow hhigh hopened =>
        rw [hstatus] at hstatus'
        rw [Option.some.inj hstatus', if_neg hrange]
        exact ⟨hkind, bounds, hbounds, hlow, hhigh, hopened⟩
    | download _ hmissing =>
        rw [hstatus] at hmissing
        cases hmissing
  · intro h
    obtain ⟨hkind, hcase⟩ := h
    split at hcase
    next hrange => exact .whole buffer hstatus hkind hrange hcase
    next hrange =>
      obtain ⟨bounds, hbounds, hlow, hhigh, hopened⟩ := hcase
      exact .slice buffer bounds hstatus hkind hrange hbounds hlow hhigh hopened

/-- When it names none. -/
theorem announcesSent_none_iff (hstatus : env.status before (cstr path) = none) :
    AnnouncesSent env before path req ↔
      routeOf req.path_ = .ok .download ∧
        ∃ target, downloadPath path req.path_ = .ok target ∧
          0 ≤ (downloadLen env (before ++ [SysCall.stat path]) target).1 ∧
          (env.descriptor (before ++ [SysCall.stat path] ++ [SysCall.stat target])
              (cstr target) ≠ -1 ∨
            (downloadLen env (before ++ [SysCall.stat path]) target).1 = 0) := by
  constructor
  · intro hsent
    cases hsent with
    | whole _ hstatus' =>
        rw [hstatus] at hstatus'
        cases hstatus'
    | slice _ _ hstatus' =>
        rw [hstatus] at hstatus'
        cases hstatus'
    | download target _ hroute htarget hlow hopened =>
        exact ⟨hroute, target, htarget, hlow, hopened⟩
  · intro h
    obtain ⟨hroute, target, htarget, hlow, hopened⟩ := h
    exact .download target hstatus hroute htarget hlow hopened

theorem sendExisting_announces_iff {buffer : FileStatus} {response : HttpResponse}
    (hstatus : env.status before (cstr path) = some buffer)
    (hheaders : res.headers_ = ∅) (hbody : res.body_ = [])
    (hcall : (sendExisting env req path buffer res
      (before ++ [SysCall.stat path])).result = .ok response) :
    response.closeConnection_ = res.closeConnection_ ∧
      (Announces response ↔ AnnouncesSent env before path req) := by
  rw [announcesSent_some_iff hstatus]
  unfold sendExisting at hcall
  cases hkind : buffer.kind with
  | directory =>
      rw [hkind] at hcall
      have hhtml := returning_sendDirectory _ _ hcall
      exact ⟨hhtml.close_eq,
        iff_of_false (hhtml.not_announces hheaders) fun h => nomatch h.1⟩
  | other =>
      rw [hkind] at hcall
      have hhtml := returning_pure (isHtml_sendHtml _ _) _ _ hcall
      exact ⟨hhtml.close_eq,
        iff_of_false (hhtml.not_announces hheaders) fun h => nomatch h.1⟩
  | regular =>
      rw [hkind] at hcall
      obtain ⟨hclose, hsends⟩ := sendRegular_result hbody hcall
      refine ⟨hclose, ?_⟩
      rw [and_iff_right rfl]
      by_cases hrange : req.getHeader (ascii "Range") = []
      · have hsize := buffer.size_lt
        have hnonneg : (0 : ℤ) ≤ buffer.st_size := by omega
        rw [if_pos hrange] at hsends ⊢
        rw [hsends.announces_iff, wholeFile_iff (by omega) (by omega),
          and_iff_right hnonneg, Int.natCast_eq_zero]
      · rw [if_neg hrange] at hsends ⊢
        obtain ⟨bounds, hbounds, hslice⟩ := hsends
        rw [hslice.announces_iff, slice_iff, hbounds]
        simp only [Except.ok.injEq, exists_eq_left']

theorem takeRoute_announces_iff {route : Route} {built : FileServer × HttpResponse}
    (hstatus : env.status before (cstr path) = none)
    (hroute : routeOf req.path_ = .ok route)
    (hheaders : res.headers_ = ∅) (hbody : res.body_ = [])
    (hcall : (takeRoute env server req path res route
      (before ++ [SysCall.stat path])).result = .ok built) :
    built.2.closeConnection_ = res.closeConnection_ ∧
      (Announces built.2 ↔ AnnouncesSent env before path req) := by
  rw [announcesSent_none_iff hstatus, hroute, Except.ok.injEq]
  by_cases hdownload : route = .download
  · subst hdownload
    unfold takeRoute at hcall
    obtain ⟨response, hresponse, hbuilt⟩ := bind_result_eq_ok.mp hcall
    obtain ⟨hclose, target, htarget, hfile⟩ := download_result hbody hresponse
    have hbounds := (downloadLen env (before ++ [SysCall.stat path]) target).2
    rw [← Except.ok.inj hbuilt]
    refine ⟨hclose, ?_⟩
    rw [hfile.announces_iff, wholeFile_iff hbounds.1 hbounds.2, htarget]
    simp only [Except.ok.injEq, exists_eq_left', true_and]
  · have hhtml := returning_takeRoute hdownload _ _ hcall
    exact ⟨hhtml.close_eq,
      iff_of_false (hhtml.not_announces hheaders) fun h => hdownload h.1⟩

theorem setResponseBody_announces_iff {built : FileServer × HttpResponse}
    (hheaders : res.headers_ = ∅) (hbody : res.body_ = [])
    (hcall : (setResponseBody env server req res before).result = .ok built) :
    built.2.closeConnection_ = res.closeConnection_ ∧
      (Announces built.2 ↔
        AnnouncesSent env before (server.workPath_ ++ req.path_) req) := by
  unfold setResponseBody at hcall
  obtain ⟨path, hpath, hstat⟩ := lift_bind_result_eq_ok.mp hcall
  rw [(concat_eq_ok.mp hpath).2] at hstat
  generalize server.workPath_ ++ req.path_ = path at *
  have hanswer := hstat
  unfold Environment.stat at hanswer
  rw [perform_bind_result] at hanswer
  cases hstatus : env.status before (cstr path) with
  | some buffer =>
      rw [hstatus] at hanswer
      obtain ⟨response, hresponse, hbuilt⟩ := bind_result_eq_ok.mp hanswer
      rw [← Except.ok.inj hbuilt]
      exact sendExisting_announces_iff hstatus hheaders hbody hresponse
  | none =>
      rw [hstatus] at hanswer
      obtain ⟨route, hroute, htaken⟩ := lift_bind_result_eq_ok.mp hanswer
      exact takeRoute_announces_iff hstatus hroute hheaders hbody htaken

theorem favicon_page {response : HttpResponse} (hfavicon : req.path_ = ascii "/favicon.ico")
    {server' : FileServer}
    (hcall : (buildResponse env server req before).result = .ok (server', response)) :
    response.closeConnection_ = req.wantsClose ∧ ¬ Announces response := by
  unfold buildResponse at hcall
  rw [if_pos hfavicon] at hcall
  cases hcall
  refine ⟨rfl, ?_⟩
  intro h
  obtain ⟨n, hlookup, _⟩ := h
  change ((∅ : Headers).insert (ascii "Content-Type") _).lookup _ = _ at hlookup
  rw [Finmap.lookup_insert_of_ne _ (by decide), Finmap.lookup_empty] at hlookup
  cases hlookup

theorem buildResponse_announces_iff {server' : FileServer} {response : HttpResponse}
    (hcall : (buildResponse env server req before).result = .ok (server', response)) :
    response.closeConnection_ = req.wantsClose ∧
      (Announces response ↔ req.path_ ≠ ascii "/favicon.ico" ∧
        AnnouncesSent env before (server.workPath_ ++ req.path_) req) := by
  by_cases hfavicon : req.path_ = ascii "/favicon.ico"
  · obtain ⟨hclose, hsilent⟩ := favicon_page hfavicon hcall
    exact ⟨hclose, iff_of_false hsilent fun h => h.1 hfavicon⟩
  · unfold buildResponse at hcall
    rw [if_neg hfavicon] at hcall
    obtain ⟨hclose, hannounces⟩ := setResponseBody_announces_iff rfl rfl hcall
    refine ⟨hclose, hannounces.trans ?_⟩
    rw [and_iff_right hfavicon]

theorem onRequest_eq_ok {order : (headers : Headers) → Traversal headers}
    {server' : FileServer} {actions : List ConnAction}
    (hcall : (onRequest env order server req before).result = .ok (server', actions)) :
    ∃ response, (buildResponse env server req before).result = .ok (server', response) ∧
      sendResponse order response = .ok actions := by
  unfold onRequest at hcall
  obtain ⟨built, hbuilt, hrest⟩ := bind_result_eq_ok.mp hcall
  obtain ⟨sent, hsent, hpair⟩ := lift_bind_result_eq_ok.mp hrest
  cases Except.ok.inj hpair
  exact ⟨built.2, hbuilt, hsent⟩

/-- What `onRequest` queues ends where it says, exactly when the connection is
closed or the length of a file is announced and sent. -/
theorem onRequest_self_delimiting_iff
    {order : (headers : Headers) → Traversal headers} {server' : FileServer}
    {actions : List ConnAction}
    (hcall : (onRequest env order server req before).result = .ok (server', actions)) :
    ∃ response rest,
      (buildResponse env server req before).result = .ok (server', response) ∧
      actions = .send (response.text (order response.headers_)) :: rest ∧
      (SelfDelimiting (response.connectionLine :: (order response.headers_).1)
          response.body_ rest ↔
        req.wantsClose = true ∨ (req.path_ ≠ ascii "/favicon.ico" ∧
          AnnouncesSent env before (server.workPath_ ++ req.path_) req)) := by
  obtain ⟨response, hbuilt, hsent⟩ := onRequest_eq_ok hcall
  obtain ⟨hclose, hannounces⟩ := buildResponse_announces_iff hbuilt
  refine ⟨response, _, hbuilt, sendResponse_spec hsent, ?_⟩
  rw [selfDelimiting_iff, hclose, hannounces]

end Request

theorem onRequest_of_short {env : Environment} {before : List SysCall}
    {server : FileServer} {req : HttpRequest} {response : HttpResponse}
    {order : (headers : Headers) → Traversal headers}
    (hbuilt : (buildResponse env server req before).result = .ok (server, response))
    (hshort : ((response.pieces (order response.headers_)).map List.length).sum < 2 ^ 30) :
    (onRequest env order server req before).result =
      .ok (server, .send (response.text (order response.headers_)) ::
        (fileActions response ++ closeActions response)) := by
  have hroom : Returns (response.appendToBuffer (order _) Buffer.initial) := by
    have hbuffer : Buffer.initial.buffer_.length < 2000 := by decide +kernel
    rw [HttpResponse.appendToBuffer_eq]
    exact Buffer.appendAll_returns_of_lt Buffer.initial_inv (by omega)
  obtain ⟨buf, hbuf⟩ := hroom
  have hsend : ∃ actions, sendResponse order response = .ok actions := by
    unfold sendResponse
    rw [hbuf]
    exact ⟨_, rfl⟩
  obtain ⟨actions, hactions⟩ := hsend
  unfold onRequest
  refine bind_result_eq_ok.mpr ⟨_, hbuilt, ?_⟩
  refine lift_bind_result_eq_ok.mpr ⟨_, hactions, ?_⟩
  rw [sendResponse_spec hactions]
  rfl

/-! ## A page that does not announce its length -/

def missingServer : FileServer := { workPath_ := ascii "/srv/files" }

def missingRequest : HttpRequest := { path_ := ascii "/x" }

def missingPage : HttpResponse :=
  sendHtml .k404NotFound (get404Html (ascii "File not found."))
    { closeConnection_ := false }

theorem buildResponse_missing :
    (buildResponse {} missingServer missingRequest []).result =
      .ok (missingServer, missingPage) := by
  have hfit : missingServer.workPath_.length + missingRequest.path_.length ≤ maxSize :=
    (lt_maxSize (by decide)).le
  unfold buildResponse
  rw [if_neg (by decide)]
  unfold setResponseBody
  apply lift_bind_result_eq_ok.mpr
  refine ⟨_, concat_eq_ok.mpr ⟨hfit, rfl⟩, ?_⟩
  rfl

theorem storedOrder_missing :
    (storedOrder missingPage.headers_).1 =
      [(ascii "Content-Type", ascii "text/html;charset=utf-8")] := by
  rw [← Multiset.coe_eq_singleton, (storedOrder missingPage.headers_).2]
  rfl

theorem pieces_missing :
    ((missingPage.pieces (storedOrder missingPage.headers_)).map List.length).sum < 2 ^ 30 := by
  unfold HttpResponse.pieces
  rw [storedOrder_missing]
  decide +kernel

theorem onRequest_missing :
    (onRequest {} storedOrder missingServer missingRequest []).result =
      .ok (missingServer,
        [.send (missingPage.text (storedOrder missingPage.headers_))]) :=
  onRequest_of_short buildResponse_missing pieces_missing

/-- A page for a connection that stays open. -/
theorem missing_page_undelimited :
    (onRequest {} storedOrder missingServer missingRequest []).result =
      .ok (missingServer,
        [.send (missingPage.text (storedOrder missingPage.headers_))]) ∧
    ¬ SelfDelimiting
      (missingPage.connectionLine :: (storedOrder missingPage.headers_).1)
      missingPage.body_ [] := by
  refine ⟨onRequest_missing, ?_⟩
  intro h
  have hends := (selfDelimiting_iff missingPage (storedOrder missingPage.headers_)).mp h
  have hhtml : IsHtml { closeConnection_ := false } missingPage := isHtml_sendHtml _ _
  rcases hends with hclose | hannounces
  · cases hclose
  · exact hhtml.not_announces rfl hannounces

/-! ## A file whose length is announced -/

/-- Ten bytes, under every path. -/
def tenByteFile : Environment where
  status := fun _ _ => some ⟨.regular, 10, by decide⟩
  descriptor := fun _ _ => 5

def filePage : HttpResponse :=
  sendWhole 10 (describeFile 5 missingRequest { closeConnection_ := false })

theorem buildResponse_file :
    (buildResponse tenByteFile missingServer missingRequest []).result =
      .ok (missingServer, filePage) := by
  have hfit : missingServer.workPath_.length + missingRequest.path_.length ≤ maxSize :=
    (lt_maxSize (by decide)).le
  unfold buildResponse
  rw [if_neg (by decide)]
  unfold setResponseBody
  apply lift_bind_result_eq_ok.mpr
  refine ⟨_, concat_eq_ok.mpr ⟨hfit, rfl⟩, ?_⟩
  rfl

theorem headerLines_file :
    headerLines filePage.headers_ =
      ([(contentLengthName, ascii "10"), (ascii "Accept-Ranges", ascii "bytes"),
        (ascii "Content-Type", defaultType)] : List HeaderLine) := by
  decide +kernel

theorem pieces_file :
    ((filePage.pieces (storedOrder filePage.headers_)).map List.length).sum < 2 ^ 30 := by
  rw [HttpResponse.sum_length_pieces _ headerLines_file]
  decide +kernel

theorem onRequest_file :
    (onRequest tenByteFile storedOrder missingServer missingRequest []).result =
      .ok (missingServer,
        [.send (filePage.text (storedOrder filePage.headers_)), .sendFile 5 10]) :=
  onRequest_of_short buildResponse_file pieces_file

/-- On a connection that stays open. -/
theorem onRequest_self_delimiting_file :
    ∃ response rest,
      (buildResponse tenByteFile missingServer missingRequest []).result =
        .ok (missingServer, response) ∧
      [ConnAction.send (filePage.text (storedOrder filePage.headers_)), .sendFile 5 10] =
        .send (response.text (storedOrder response.headers_)) :: rest ∧
      missingRequest.wantsClose = false ∧
      SelfDelimiting (response.connectionLine :: (storedOrder response.headers_).1)
        response.body_ rest := by
  obtain ⟨response, rest, hbuilt, hactions, hiff⟩ :=
    onRequest_self_delimiting_iff onRequest_file
  refine ⟨response, rest, hbuilt, hactions, by decide, hiff.mpr (.inr ⟨by decide, ?_⟩)⟩
  exact .whole _ rfl rfl rfl (.inl (by decide))

end MyFileServer
