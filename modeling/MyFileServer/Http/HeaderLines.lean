import MyFileServer.Http.SelfDelimiting

/-!
# The lines of a response

A line break inside a header value would let the peer add lines to a response.
The values come from constants and numbers with one exception, the name that a
download offers, which is taken from the path of the request.
-/

namespace MyFileServer

open Execution CallLog Delimiter

/-! ## Adding a header -/

theorem mem_headerLines_iff (headers : Headers) (key value : Bytes) :
    (key, value) ∈ headerLines headers ↔ headers.lookup key = some value := by
  rw [Finmap.lookup_eq_some_iff, headerLines, Multiset.mem_map]
  constructor
  · intro h
    obtain ⟨⟨key', value'⟩, hentry, heq⟩ := h
    cases heq
    exact hentry
  · intro hentry
    exact ⟨_, hentry, rfl⟩

def PlainName (name : Bytes) : Prop :=
  chr ':' ∉ name ∧ NoBreak name

instance (name : Bytes) : Decidable (PlainName name) :=
  inferInstanceAs (Decidable (_ ∧ _))

namespace HttpResponse

variable {res : HttpResponse}

theorem WellFormed.addHeader (hres : res.WellFormed) {key value : Bytes}
    (hkey : PlainName key) (hvalue : NoBreak value) : (res.addHeader key value).WellFormed where
  message_noBreak := hres.message_noBreak
  headers_plain := by
    intro header hmem
    obtain ⟨key', value'⟩ := header
    have hlookup := (mem_headerLines_iff _ _ _).mp hmem
    by_cases hsame : key' = key
    · rw [hsame] at hlookup ⊢
      have hadded := Option.some.inj ((Finmap.lookup_insert _).symm.trans hlookup)
      rw [← hadded]
      exact ⟨hkey.1, hkey.2, hvalue⟩
    · have hold := (Finmap.lookup_insert_of_ne _ hsame).symm.trans hlookup
      exact hres.headers_plain _ ((mem_headerLines_iff _ _ _).mpr hold)

/-- A value that was added last is one of the header lines. -/
theorem WellFormed.value_noBreak (hres : res.WellFormed) {key value : Bytes}
    (hlookup : res.headers_.lookup key = some value) : NoBreak value :=
  (hres.headers_plain _ ((mem_headerLines_iff _ _ _).mpr hlookup)).value_noBreak

theorem wellFormed_of_empty (hmessage : res.statusMessage_ = [])
    (hheaders : res.headers_ = ∅) : res.WellFormed where
  message_noBreak := by
    rw [hmessage]
    decide
  headers_plain := by
    intro header hmem
    rw [hheaders] at hmem
    exact absurd hmem (Multiset.notMem_zero header)

theorem WellFormed.setStatus (hres : res.WellFormed) (code : HttpStatusCode)
    {message : Bytes} (hmessage : NoBreak message) :
    ((res.setStatusCode code).setStatusMessage message).WellFormed where
  message_noBreak := hmessage
  headers_plain := hres.headers_plain

end HttpResponse

/-! ## Values that the handler chooses -/

theorem noBreak_decimal (n : ℕ) : NoBreak (decimal n) := by
  constructor <;> intro hmem <;> exact absurd (isdigit_of_mem_decimal hmem) (by decide)

theorem noBreak_to_string (i : ℤ) : NoBreak (to_string i) := by
  unfold to_string
  split
  · exact noBreak_cons.mpr ⟨by decide, noBreak_decimal _⟩
  · exact noBreak_decimal _

theorem noBreak_getMime (suffix : Bytes) : NoBreak (getMime suffix) := by
  have hall : ∀ entry ∈ mime, NoBreak entry.2 := by decide
  unfold getMime
  cases hlookup : mime.lookup suffix with
  | none => exact (by decide : NoBreak defaultType)
  | some type =>
      obtain ⟨front, back, hsplit, _⟩ := List.lookup_eq_some_iff.mp hlookup
      exact hall (suffix, type) (by rw [hsplit]; simp)

/-- The name under which a download is offered. -/
def offeredName (target : Bytes) : Bytes :=
  target.drop (addSizeT (findLastOf target (chr '/')) 1)

section Results

variable {env : Environment} {before : List SysCall} {server : FileServer}
  {req : HttpRequest} {path : Bytes} {res : HttpResponse}

theorem IsHtml.wellFormed {response : HttpResponse} (hhtml : IsHtml res response)
    (hres : res.WellFormed) : response.WellFormed := by
  obtain ⟨code, html, rfl⟩ := hhtml
  have hcode : (res.setStatusCode code).WellFormed :=
    ⟨hres.message_noBreak, hres.headers_plain⟩
  have htyped := hcode.addHeader (by decide : PlainName (ascii "Content-Type"))
    (by decide : NoBreak (ascii "text/html;charset=utf-8"))
  exact ⟨htyped.message_noBreak, htyped.headers_plain⟩

theorem wellFormed_describeFile (hres : res.WellFormed) (fd : ℤ) (req : HttpRequest) :
    (describeFile fd req res).WellFormed := by
  have hopened : (res.setFd fd).WellFormed := ⟨hres.message_noBreak, hres.headers_plain⟩
  have htyped := hopened.addHeader (by decide : PlainName (ascii "Content-Type"))
    (noBreak_getMime (suffixOf req.path_))
  exact htyped.addHeader (by decide) (by decide)

theorem wellFormed_sendWhole (hres : res.WellFormed) (len : ℤ) :
    (sendWhole len res).WellFormed := by
  have hstatus := hres.setStatus .k200Ok (by decide : NoBreak (ascii "OK"))
  have hsized : (((res.setStatusCode .k200Ok).setStatusMessage (ascii "OK")).setSendLen
      len).WellFormed := ⟨hstatus.message_noBreak, hstatus.headers_plain⟩
  exact hsized.addHeader (by decide) (noBreak_to_string len)

theorem returning_sendRange_wellFormed (hres : res.WellFormed) (range : Bytes) (len fd : ℤ) :
    Returning HttpResponse.WellFormed (sendRange range len fd res) := by
  unfold sendRange
  refine returning_bind fun bounds => returning_bind fun _ => returning_pure ?_
  have hstatus := hres.setStatus .k206Partitial (by decide : NoBreak (ascii "Partial Content"))
  have hsized : (((res.setStatusCode .k206Partitial).setStatusMessage
      (ascii "Partial Content")).setSendLen
        (Int.bmod (off64 (bounds.2 - bounds.1 + 1)) (2 ^ 32))).WellFormed :=
    ⟨hstatus.message_noBreak, hstatus.headers_plain⟩
  refine (hsized.addHeader (by decide) ?_).addHeader (by decide) (noBreak_to_string _)
  simp only [noBreak_append]
  exact ⟨⟨⟨⟨⟨by decide, noBreak_to_string _⟩, by decide⟩, noBreak_to_string _⟩, by decide⟩,
    noBreak_to_string _⟩

theorem returning_sendRegular_wellFormed (hres : res.WellFormed) (len : ℤ) :
    Returning HttpResponse.WellFormed (sendRegular env req path len res) := by
  unfold sendRegular
  refine returning_bind fun fd => ?_
  have hdescribed := wellFormed_describeFile hres fd req
  dsimp only
  split
  · exact returning_sendRange_wellFormed hdescribed _ len fd
  · exact returning_pure (wellFormed_sendWhole hdescribed len)

theorem returning_sendExisting_wellFormed (hres : res.WellFormed) (buffer : FileStatus) :
    Returning HttpResponse.WellFormed (sendExisting env req path buffer res) := by
  unfold sendExisting
  cases buffer.kind with
  | directory =>
      intro before response hresponse
      exact (returning_sendDirectory before response hresponse).wellFormed hres
  | regular => exact returning_sendRegular_wellFormed hres _
  | other => exact returning_pure ((isHtml_sendHtml _ _).wellFormed hres)

/-- Among the routes only the download puts something of the request into a
header. -/
theorem download_wellFormed_iff (hres : res.WellFormed) {response : HttpResponse}
    (hcall : (download env req path res before).result = .ok response) :
    response.WellFormed ↔
      ∀ target, downloadPath path req.path_ = .ok target → NoBreak (offeredName target) := by
  unfold download at hcall
  obtain ⟨target, htarget, hstat⟩ := lift_bind_result_eq_ok.mp hcall
  rw [bind_of_ok statSize_apply, openFile_bind_result] at hstat
  rw [← Except.ok.inj hstat, htarget]
  simp only [Except.ok.injEq, forall_eq']
  constructor
  · intro hformed
    have hlookup : (sendWhole (downloadLen env before target).1 ((describeFile
        (env.descriptor (before ++ [SysCall.stat target]) (cstr target)) req res).setDisposition
          (offeredName target))).headers_.lookup (ascii "Content-Disposition") =
        some (ascii "attachment;filename=" ++ offeredName target) :=
      (Finmap.lookup_insert_of_ne _ (by decide)).trans (Finmap.lookup_insert _)
    exact (noBreak_append.mp (hformed.value_noBreak hlookup)).2
  · intro hname
    refine wellFormed_sendWhole ?_ _
    exact (wellFormed_describeFile hres _ req).addHeader (by decide)
      (noBreak_append.mpr ⟨by decide, hname⟩)

end Results

/-! ## The response to a request -/

/-- The request is a download, and the name that it offers holds a line
break. -/
def OffersBreak (env : Environment) (before : List SysCall) (path : Bytes)
    (req : HttpRequest) : Prop :=
  req.path_ ≠ ascii "/favicon.ico" ∧ env.status before (cstr path) = none ∧
    routeOf req.path_ = .ok .download ∧
      ∃ target, downloadPath path req.path_ = .ok target ∧ ¬ NoBreak (offeredName target)

section Response

variable {env : Environment} {before : List SysCall} {server server' : FileServer}
  {req : HttpRequest} {res response : HttpResponse}

theorem setResponseBody_wellFormed_iff (hres : res.WellFormed)
    (hicon : req.path_ ≠ ascii "/favicon.ico") {built : FileServer × HttpResponse}
    (hcall : (setResponseBody env server req res before).result = .ok built) :
    built.2.WellFormed ↔ ¬ OffersBreak env before (server.workPath_ ++ req.path_) req := by
  unfold setResponseBody at hcall
  obtain ⟨path, hpath, hstat⟩ := lift_bind_result_eq_ok.mp hcall
  rw [(concat_eq_ok.mp hpath).2] at hstat
  unfold OffersBreak
  generalize server.workPath_ ++ req.path_ = path at *
  unfold Environment.stat at hstat
  rw [perform_bind_result] at hstat
  cases hstatus : env.status before (cstr path) with
  | some buffer =>
      rw [hstatus] at hstat
      obtain ⟨response, hresponse, hbuilt⟩ := bind_result_eq_ok.mp hstat
      rw [← Except.ok.inj hbuilt]
      exact iff_of_true (returning_sendExisting_wellFormed hres buffer _ _ hresponse)
        fun h => nomatch h.2.1
  | none =>
      rw [hstatus] at hstat
      obtain ⟨route, hroute, htaken⟩ := lift_bind_result_eq_ok.mp hstat
      rw [hroute, Except.ok.injEq]
      by_cases hdownload : route = .download
      · subst hdownload
        unfold takeRoute at htaken
        obtain ⟨response, hresponse, hbuilt⟩ := bind_result_eq_ok.mp htaken
        rw [← Except.ok.inj hbuilt, download_wellFormed_iff hres hresponse]
        simp [hicon]
      · have hhtml := returning_takeRoute hdownload _ _ htaken
        exact iff_of_true (hhtml.wellFormed hres) fun h => hdownload h.2.2.1

theorem buildResponse_wellFormed_iff
    (hcall : (buildResponse env server req before).result = .ok (server', response)) :
    response.WellFormed ↔ ¬ OffersBreak env before (server.workPath_ ++ req.path_) req := by
  have hfresh : ({ closeConnection_ := req.wantsClose } : HttpResponse).WellFormed :=
    HttpResponse.wellFormed_of_empty rfl rfl
  unfold buildResponse at hcall
  by_cases hicon : req.path_ = ascii "/favicon.ico"
  · rw [if_pos hicon] at hcall
    cases hcall
    refine iff_of_true ?_ fun h => h.1 hicon
    have hstatus := hfresh.setStatus .k200Ok (by decide : NoBreak (ascii "OK"))
    have htyped := hstatus.addHeader (by decide : PlainName (ascii "Content-Type"))
      (by decide : NoBreak (ascii "image/png"))
    exact ⟨htyped.message_noBreak, htyped.headers_plain⟩
  · rw [if_neg hicon] at hcall
    exact setResponseBody_wellFormed_iff hfresh hicon hcall

theorem noBreak_of_part {part text : Bytes} (htext : NoBreak text)
    (hpart : ∀ c ∈ part, c ∈ text) : NoBreak part :=
  ⟨fun h => htext.1 (hpart _ h), fun h => htext.2 (hpart _ h)⟩

/-- Without a break in the work path and in the path of the request there is
none in the name. -/
theorem not_offersBreak {workPath_ : Bytes} (hwork : NoBreak workPath_)
    (hpath : NoBreak req.path_) :
    ¬ OffersBreak env before (workPath_ ++ req.path_) req := by
  intro h
  obtain ⟨_, _, _, target, htarget, hbreak⟩ := h
  refine hbreak (noBreak_of_part (noBreak_append.mpr ⟨hwork, hpath⟩) fun c hc => ?_)
  have hmem := List.mem_of_mem_drop hc
  rw [(substr_append_eq_ok.mp htarget).2, List.mem_append] at hmem
  rcases hmem with hmem | hmem
  · exact List.mem_of_mem_take hmem
  · exact List.mem_append_right _ (List.mem_of_mem_drop hmem)

/-- No request adds a line to its response but a download under a name that
holds a line break; every other response is read back as it was built. -/
theorem onRequest_lines_plain_iff {order : (headers : Headers) → Traversal headers}
    {actions : List ConnAction}
    (hcall : (onRequest env order server req before).result = .ok (server', actions)) :
    ∃ response rest,
      (buildResponse env server req before).result = .ok (server', response) ∧
      actions = .send (response.text (order response.headers_)) :: rest ∧
      (response.WellFormed ↔ ¬ OffersBreak env before (server.workPath_ ++ req.path_) req) ∧
      (response.WellFormed →
        parseResponse (response.text (order response.headers_)) = some {
          code := response.statusCode_.value
          message := response.statusMessage_
          headers := response.connectionLine :: (order response.headers_).1
          body := response.body_ }) ∧
      (NoBreak server.workPath_ → NoBreak req.path_ → response.WellFormed) := by
  obtain ⟨response, hbuilt, hsent⟩ := onRequest_eq_ok hcall
  have hiff := buildResponse_wellFormed_iff hbuilt
  refine ⟨response, _, hbuilt, sendResponse_spec hsent, hiff, ?_, ?_⟩
  · intro hformed
    exact HttpResponse.parseResponse_text hformed (order response.headers_)
  · intro hwork hpath
    exact hiff.mpr (not_offersBreak hwork hpath)

end Response

theorem onRequest_lines_plain_missing :
    ∃ response rest,
      (buildResponse {} missingServer missingRequest []).result =
        .ok (missingServer, response) ∧
      [ConnAction.send (missingPage.text (storedOrder missingPage.headers_))] =
        .send (response.text (storedOrder response.headers_)) :: rest ∧
      response.WellFormed := by
  obtain ⟨response, rest, hbuilt, hactions, _, _, hformed⟩ :=
    onRequest_lines_plain_iff onRequest_missing
  exact ⟨response, rest, hbuilt, hactions, hformed (by decide) (by decide)⟩

end MyFileServer
