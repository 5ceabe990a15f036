import MyFileServer.Base.Decimal
import MyFileServer.Http.FileEffects
import MyFileServer.Http.RequestHead

/-!
# What an upload stores

A multipart body goes through three cuts: the body branch of the parser skips
the boundary line and the header lines of the part, `addcontent` takes as many
bytes as the length in force says, and the route of the upload stops at the
first run of dashes.
-/

namespace MyFileServer

open Execution CallLog Delimiter Buffer Window

/-! ## The cut at the dashes -/

theorem uploadContent_eq {s : Bytes} (hshort : s.length < 2 ^ 31) :
    uploadContent s = s.take (search dashes s) := by
  have hle := search_le_length dashes s
  unfold uploadContent find
  by_cases hend : search dashes s = s.length
  · have hnpos : toSizeT (toInt npos) = npos := by decide
    rw [if_pos hend, hnpos, hend, List.take_length, List.take_of_length_le]
    unfold npos
    omega
  · rw [if_neg hend, toSizeT_toInt (by omega)]

/-- For a slice that starts at the content: the line break behind the content
is never the start of a run of dashes. -/
theorem uploadContent_eq_iff {s content more : Bytes} (hshort : s.length < 2 ^ 31)
    (hslice : s <+: content ++ (kCRLF ++ more)) :
    uploadContent s = content ↔
      s.length = content.length ∧ Free dashes content := by
  rw [uploadContent_eq hshort]
  constructor
  · intro hcut
    by_cases hend : search dashes s = s.length
    · rw [hend, List.take_length] at hcut
      rw [← hcut]
      exact ⟨rfl, (search_eq_length_iff (by decide) s).mp hend⟩
    · exfalso
      have hfound := delimiter_prefix_drop_search hend
      have hsplit : content ++ s.drop (search dashes s) = s := by
        conv_lhs => rw [← hcut]
        exact List.take_append_drop _ _
      rw [← hsplit, List.prefix_append_right_inj] at hslice
      obtain ⟨rest, hrest⟩ := hfound.trans hslice
      have hhead : some (chr '-') = some (chr '\r') := congrArg List.head? hrest
      exact absurd hhead (by decide)
  · intro h
    obtain ⟨hlength, hfree⟩ := h
    have hwhole : s = content := by
      have hprefix := List.prefix_append content (kCRLF ++ more)
      exact (List.prefix_of_prefix_length_le hslice hprefix hlength.le).eq_of_length
        hlength
    rw [hwhole, (search_eq_length_iff (by decide) content).mpr hfree,
      List.take_length]

/-! ## The request of an upload -/

/-- A POST to `/upload` with a body of one part.  What follows the closing
boundary is not looked at. -/
structure Upload where
  head : RequestHead
  boundary : Bytes
  part : List Bytes
  content : Bytes
  epilogue : Bytes
  method_eq : head.line.method = .kPost
  path_eq : head.line.path = ascii "/upload"
  boundary_free : Free kCRLF boundary
  part_free : ∀ line ∈ part, Free kCRLF line
  part_colon : ∀ line ∈ part, IsField line

namespace Upload

variable (upload : Upload)

def boundaryLine : Bytes := ascii "--" ++ upload.boundary

/-- The bytes behind the content. -/
def closing : Bytes :=
  kCRLF ++ (upload.boundaryLine ++ ascii "--" ++ upload.epilogue)

def body : Bytes :=
  upload.boundaryLine ++ kCRLF ++
    (frame kCRLF upload.part ++ kCRLF ++ (upload.content ++ upload.closing))

def text : Bytes := upload.head.text ++ upload.body

/-- The request with the header lines of the part added to its own. -/
def request (req : HttpRequest) (t : Timestamp) : HttpRequest :=
  addFields (upload.head.request req t) upload.part

theorem request_path_ (req : HttpRequest) (t : Timestamp) :
    (upload.request req t).path_ = ascii "/upload" := by
  unfold request
  rw [addFields_eq]
  exact (upload.head.request_path_ req t).trans upload.path_eq

theorem boundaryLine_free : Free kCRLF upload.boundaryLine :=
  (upload.boundary_free.cons (by decide)).cons (by decide)

theorem closed (rest : Bytes) :
    ClosedBlock kCRLF IsField
      (frame kCRLF upload.part ++ kCRLF ++ (upload.content ++ upload.closing) ++ rest)
      upload.part [] (upload.content ++ upload.closing ++ rest) where
  text_eq := by simp [List.append_assoc]
  lines_free := upload.part_free
  lines_keep := upload.part_colon
  last_free := free_nil kCRLF_ne_nil
  last_refused := by simp [IsField]

/-- Where the body branch takes its slice. -/
theorem expectBody_eq {req : HttpRequest} (hmethod : req.method_ = .kPost)
    {buf : Buffer} (hbuf : buf.Inv) {rest : Bytes}
    (hread : buf.readable = upload.body ++ rest) :
    ∃ buf', buf'.Inv ∧
      buf'.readable = upload.content ++ upload.closing ++ rest ∧
      expectBody .storage req buf =
        (fun request => (request, buf')) <$>
          (addFields req upload.part).addcontent .storage buf' buf'.peek := by
  have hlines : buf.readable = upload.boundaryLine ++ kCRLF ++
      (frame kCRLF upload.part ++ kCRLF ++ (upload.content ++ upload.closing) ++
        rest) := by
    rw [hread]
    simp [body, List.append_assoc]
  have hdash : buf.readable.head? = some (chr '-') := by
    rw [hlines]
    rfl
  obtain ⟨buf', hbuf', hcontent, _, hcall⟩ := parseBody_closed hbuf
    (load_first hbuf .storage hdash) hlines upload.boundaryLine_free
    (upload.closed rest)
  have hpos : 0 < buf'.readable.length := by
    rw [hcontent]
    simp [closing, kCRLF]
  have hroom : buf'.peek + 1 ≤ buf'.limit .storage := by
    have hlength := length_readable hbuf'
    have hwriter := hbuf'.writer_le
    unfold readableBytes at hlength
    unfold peek
    simp only [limit]
    omega
  refine ⟨buf', hbuf', hcontent, ?_⟩
  have hpeek : buf'.load .storage buf'.peek 1 = .ok _ :=
    load_eq_ok.mpr ⟨le_rfl, hroom, rfl⟩
  unfold expectBody
  rw [if_pos hmethod, hcall, hpeek]
  cases (addFields req upload.part).addcontent .storage buf' buf'.peek with
  | error fault => rfl
  | ok request => rfl

end Upload

/-- A slice that starts with the readable bytes, also when it is longer. -/
theorem window_storage_prefix {buf : Buffer} (hbuf : buf.Inv) (n : ℕ) :
    ∃ stale, window buf.buffer_ buf.peek (buf.peek + n) <+: buf.readable ++ stale := by
  refine ⟨buf.buffer_.drop buf.writerIndex_, ?_⟩
  have hreader := hbuf.reader_le
  have hstore : buf.readable ++ buf.buffer_.drop buf.writerIndex_ =
      buf.buffer_.drop buf.peek := by
    unfold readable window peek
    have hdrop := List.take_append_drop (buf.writerIndex_ - buf.readerIndex_)
      (buf.buffer_.drop buf.readerIndex_)
    rwa [List.drop_drop, Nat.add_sub_cancel' hreader] at hdrop
  rw [hstore]
  exact List.take_prefix _ _

/-! ## The file of the upload -/

section Route

variable {env : Environment} {before : List SysCall} {server : FileServer}
  {req : HttpRequest}

/-- The route of the upload is taken and its file opens. -/
structure OpensUpload (env : Environment) (before : List SysCall)
    (workPath_ : Bytes) (req : HttpRequest) : Prop where
  fits : workPath_.length + req.path_.length ≤ maxSize
  missing : env.status before (cstr (workPath_ ++ req.path_)) = none
  opened : ∃ f_name, uploadName req = .ok f_name ∧
    env.creates (before ++ [.stat (workPath_ ++ req.path_)])
      (cstr (uploadDir (workPath_ ++ req.path_) req ++ f_name)) = true

/-- No call of the handler writes exactly these bytes. -/
def WritesOther (content : Bytes) (call : SysCall) : Prop :=
  ∀ path, call ≠ .write path content

theorem writesOther_of_not_changes {content : Bytes} {call : SysCall}
    (hcall : ¬ call.Changes) : WritesOther content call := by
  intro path hwrite
  rw [hwrite] at hcall
  exact hcall trivial

theorem emits_upload_writesOther {content path : Bytes} {res : HttpResponse} :
    Emits (WritesOther content) (upload env req path res) before ↔
      ((∃ f_name, uploadName req = .ok f_name ∧
          env.creates before (cstr (uploadDir path req ++ f_name)) = true) →
        uploadContent req.m_string ≠ content) := by
  rw [emits_upload]
  simp only [emits_storeFile]
  constructor
  · intro hall hopened hsame
    obtain ⟨f_name, hname, hcreates⟩ := hopened
    exact (hall f_name hname).1.2 hcreates _ (congrArg _ hsame)
  · intro hother f_name hname
    refine ⟨⟨nofun, ?_⟩, (keepsFiles_scanDir _ _).mono
      fun call => writesOther_of_not_changes⟩
    intro hcreates path hwrite
    exact hother ⟨f_name, hname, hcreates⟩ (SysCall.write.inj hwrite).2

theorem emits_onRequest {P : SysCall → Prop}
    {order : (headers : Headers) → Traversal headers} :
    Emits P (onRequest env order server req) before ↔
      Emits P (buildResponse env server req) before := by
  unfold onRequest
  rw [emits_bind]
  simp

theorem emits_onRequest_writesOther (hpath : req.path_ = ascii "/upload")
    {content : Bytes} {order : (headers : Headers) → Traversal headers} :
    Emits (WritesOther content) (onRequest env order server req) before ↔
      (OpensUpload env before server.workPath_ req →
        uploadContent req.m_string ≠ content) := by
  have hroute : routeOf req.path_ = .ok .upload := by
    rw [hpath]
    decide
  have hfavicon : req.path_ ≠ ascii "/favicon.ico" := by
    rw [hpath]
    decide
  rw [emits_onRequest]
  unfold buildResponse
  rw [if_neg hfavicon, emits_setResponseBody]
  simp only [concat_eq_ok, hroute, Except.ok.injEq]
  constructor
  · intro hall hopens
    obtain ⟨_, _, htaken⟩ := hall _ ⟨hopens.fits, rfl⟩
    have hupload := htaken hopens.missing _ rfl
    unfold takeRoute at hupload
    rw [emits_bind_pure, emits_upload_writesOther] at hupload
    exact hupload hopens.opened
  · intro hother path hfits
    obtain ⟨hfits, rfl⟩ := hfits
    refine ⟨nofun, ?_, ?_⟩
    · intro buffer _
      exact (keepsFiles_sendExisting _ _ _ _ _).mono
        fun call => writesOther_of_not_changes
    · intro hmissing route hupload
      subst hupload
      unfold takeRoute
      rw [emits_bind_pure, emits_upload_writesOther]
      intro hopened
      exact hother ⟨hfits, hmissing, hopened⟩

theorem onRequest_writes_iff (hpath : req.path_ = ascii "/upload") (content : Bytes)
    (order : (headers : Headers) → Traversal headers) :
    (∃ path, .write path content ∈ (onRequest env order server req before).calls) ↔
      OpensUpload env before server.workPath_ req ∧
        uploadContent req.m_string = content := by
  have hwrites : (∃ path, .write path content ∈
        (onRequest env order server req before).calls) ↔
      ¬ Emits (WritesOther content) (onRequest env order server req) before := by
    simp [Emits, WritesOther]
  rw [hwrites, emits_onRequest_writesOther hpath, Classical.not_imp, not_not]

/-- Only the path and the headers of the request decide. -/
theorem OpensUpload.congr {req' : HttpRequest} {workPath_ : Bytes}
    (hpath : req'.path_ = req.path_)
    (hheader : ∀ field, req'.getHeader field = req.getHeader field)
    (h : OpensUpload env before workPath_ req) :
    OpensUpload env before workPath_ req' where
  fits := by
    rw [hpath]
    exact h.fits
  missing := by
    rw [hpath]
    exact h.missing
  opened := by
    unfold uploadName uploadDir
    simp only [hpath, hheader]
    exact h.opened

theorem opensUpload_withContent {workPath_ content : Bytes} :
    OpensUpload env before workPath_ (req.withContent content) ↔
      OpensUpload env before workPath_ req := by
  have hheader (field : Bytes) :
      (req.withContent content).getHeader field = req.getHeader field :=
    HttpRequest.getHeader_headerAt req _ field
  have hpath := req.withContent_path_ content
  constructor
  · exact .congr hpath.symm fun field => (hheader field).symm
  · exact .congr hpath hheader

end Route

/-! ## From the buffer to the file -/

/-- The request in the buffer is handed over, and the handler writes these
bytes, in one piece, to a file that it has opened. -/
def Stores (env : Environment) (before : List SysCall)
    (order : (headers : Headers) → Traversal headers) (server : FileServer)
    (context : HttpContext) (buf : Buffer) (t : Timestamp) (content : Bytes) :
    Prop :=
  ∃ context' buf' actions,
    onMessage context buf t = .ok (context', buf', actions) ∧
    ∃ request ∈ dispatched actions, ∃ path,
      .write path content ∈ (onRequest env order server request before).calls

/-- The route is taken and the file opens, the length in force is the one of
the content, and nothing in the content ends it early. -/
structure StoredAsSent (env : Environment) (before : List SysCall)
    (workPath_ : Bytes) (req : HttpRequest) (content : Bytes) : Prop where
  opens : OpensUpload env before workPath_ req
  length_eq : req.contentLength = content.length
  noDashes : Free dashes content

theorem contentLength_lt (req : HttpRequest) : req.contentLength < 2 ^ 31 := by
  unfold HttpRequest.contentLength atoi
  rw [Int.bmod_def]
  split_ifs <;> omega

section Stored

variable {env : Environment} {before : List SysCall} {server : FileServer}
  {order : (headers : Headers) → Traversal headers}

theorem stores_iff_addcontent (upload : Upload) (req : HttpRequest) (t : Timestamp)
    {buf : Buffer} (hbuf : buf.Inv) {rest : Bytes}
    (hread : buf.readable = upload.text ++ rest) (content : Bytes) :
    ∃ buf', buf'.Inv ∧
      buf'.readable = upload.content ++ upload.closing ++ rest ∧
      (Stores env before order server ⟨.kExpectRequestLine, req⟩ buf t content ↔
        ∃ request,
          (upload.request req t).addcontent .storage buf' buf'.peek = .ok request ∧
          ∃ path, .write path content ∈
            (onRequest env order server request before).calls) := by
  have hends := upload.head.headEnds t req (upload.body ++ rest)
  rw [← List.append_assoc] at hends
  change HeadEnds t _ (upload.text ++ rest) _ _ _ at hends
  rw [← hread] at hends
  have hmethod : (upload.head.request req t).method_ = .kPost :=
    (upload.head.request_method_ req t).trans upload.method_eq
  have hbody := readable_retrieve_suffix hbuf hends.suffix
  obtain ⟨buf', hbuf', hcontent, hexpect⟩ :=
    upload.expectBody_eq hmethod (retrieve_inv hbuf _) hbody
  refine ⟨buf', hbuf', hcontent, ?_⟩
  unfold Stores
  rw [onMessage_of_headEnds hbuf hends, hexpect]
  simp only [map_eq_ok]
  constructor
  · intro h
    obtain ⟨_, _, _, ⟨_, ⟨parsed, hparsed, rfl⟩, hhandled⟩, request, hmem, hwrite⟩ := h
    cases hhandled
    rw [dispatched_handled, List.mem_singleton] at hmem
    rw [hmem] at hwrite
    exact ⟨parsed, hparsed, hwrite⟩
  · intro h
    obtain ⟨parsed, hparsed, hwrite⟩ := h
    refine ⟨_, _, _, ⟨_, ⟨parsed, hparsed, rfl⟩, rfl⟩, parsed, ?_, hwrite⟩
    rw [dispatched_handled]
    exact List.mem_singleton_self _

/-- The slice behind the header lines of the part, cut at the dashes. -/
theorem addcontent_content_iff (req : HttpRequest) {buf : Buffer} (hbuf : buf.Inv)
    {content more : Bytes} (hread : buf.readable = content ++ (kCRLF ++ more))
    (hmore : more ≠ []) :
    (∃ request, req.addcontent .storage buf buf.peek = .ok request ∧
        uploadContent request.m_string = content) ↔
      req.contentLength = content.length ∧ Free dashes content := by
  have hmaximum := contentLength_lt req
  have hreader := hbuf.reader_le
  have hwriter := hbuf.writer_le
  have hlength := length_readable hbuf
  have hpos := List.length_pos_iff.mpr hmore
  have hcrlf : kCRLF.length = 2 := rfl
  unfold readableBytes at hlength
  rw [hread, List.length_append, List.length_append, hcrlf] at hlength
  obtain ⟨stale, hprefix⟩ := window_storage_prefix hbuf req.contentLength.toNat
  rw [hread, List.append_assoc, List.append_assoc] at hprefix
  simp only [HttpRequest.addcontent_eq_ok, limit, peek] at hprefix ⊢
  constructor
  · intro h
    obtain ⟨request, ⟨_, _, hnonneg, hfits, rfl⟩, hcut⟩ := h
    have hwindow := length_window (i := buf.readerIndex_) hfits
    rw [Nat.add_sub_cancel_left] at hwindow
    have hsame := (uploadContent_eq_iff (by omega) hprefix).mp hcut
    rw [hwindow] at hsame
    exact ⟨by omega, hsame.2⟩
  · intro h
    obtain ⟨hsame, hfree⟩ := h
    have hcount : req.contentLength.toNat = content.length := by omega
    have hfits : buf.readerIndex_ + req.contentLength.toNat ≤ buf.buffer_.length := by
      omega
    have hwindow := length_window (i := buf.readerIndex_) hfits
    rw [Nat.add_sub_cancel_left] at hwindow
    refine ⟨_, ⟨le_rfl, by omega, by omega, hfits, rfl⟩, ?_⟩
    exact (uploadContent_eq_iff (by omega) hprefix).mpr
      ⟨hwindow.trans hcount, hfree⟩

/-- The content is stored when the parser cuts it out whole and finds no dashes
in it. -/
theorem stores_iff_cut (upload : Upload) (req : HttpRequest) (t : Timestamp)
    {buf : Buffer} (hbuf : buf.Inv) {rest : Bytes}
    (hread : buf.readable = upload.text ++ rest) :
    Stores env before order server ⟨.kExpectRequestLine, req⟩ buf t upload.content ↔
      OpensUpload env before server.workPath_ (upload.request req t) ∧
        (upload.request req t).contentLength = upload.content.length ∧
          Free dashes upload.content := by
  obtain ⟨buf', hbuf', hcontent, hstores⟩ :=
    stores_iff_addcontent upload req t hbuf hread upload.content
  have hpath := upload.request_path_ req t
  rw [hstores]
  generalize upload.request req t = request at *
  have hclosing : buf'.readable = upload.content ++
      (kCRLF ++ (upload.boundaryLine ++ ascii "--" ++ upload.epilogue ++ rest)) := by
    rw [hcontent]
    unfold Upload.closing
    simp only [List.append_assoc]
  have hcut := addcontent_content_iff request hbuf' hclosing
    (by simp [Upload.boundaryLine, ascii])
  have hwrites (parsed : HttpRequest)
      (hparsed : request.addcontent .storage buf' buf'.peek = .ok parsed) :
      (∃ path, .write path upload.content ∈
          (onRequest env order server parsed before).calls) ↔
        OpensUpload env before server.workPath_ request ∧
          uploadContent parsed.m_string = upload.content := by
    obtain ⟨_, _, _, _, rfl⟩ := HttpRequest.addcontent_eq_ok.mp hparsed
    rw [onRequest_writes_iff ((HttpRequest.withContent_path_ _ _).trans hpath),
      opensUpload_withContent]
  rw [← hcut]
  constructor
  · intro h
    obtain ⟨parsed, hparsed, hwrite⟩ := h
    obtain ⟨hopens, hsame⟩ := (hwrites parsed hparsed).mp hwrite
    exact ⟨hopens, parsed, hparsed, hsame⟩
  · intro h
    obtain ⟨hopens, parsed, hparsed, hsame⟩ := h
    exact ⟨parsed, hparsed, (hwrites parsed hparsed).mpr ⟨hopens, hsame⟩⟩

/-- An upload is stored as it was sent exactly when the length in force behind
the header lines of the part is the one of the content, the content has no run
of dashes, and the file opens. -/
theorem upload_stored_iff (upload : Upload) (req : HttpRequest) (t : Timestamp)
    {buf : Buffer} (hbuf : buf.Inv) {rest : Bytes}
    (hread : buf.readable = upload.text ++ rest) :
    Stores env before order server ⟨.kExpectRequestLine, req⟩ buf t upload.content ↔
      StoredAsSent env before server.workPath_ (upload.request req t)
        upload.content := by
  rw [stores_iff_cut upload req t hbuf hread]
  constructor
  · intro h
    exact ⟨h.1, h.2.1, h.2.2⟩
  · intro h
    exact ⟨h.opens, h.length_eq, h.noDashes⟩

/-! ## The length of the whole body -/

theorem lookup_addFields_of_ne {name : Bytes} {fields : List Bytes}
    (hfields : ∀ line ∈ fields, line.take (line.idxOf (chr ':')) ≠ name)
    (req : HttpRequest) :
    (addFields req fields).headers_.lookup name = req.headers_.lookup name := by
  induction fields generalizing req with
  | nil => rfl
  | cons line fields ih =>
      have hsplit := List.forall_mem_cons.mp hfields
      change (addFields (addField req line) fields).headers_.lookup name = _
      rw [ih hsplit.2]
      exact Finmap.lookup_insert_of_ne _ (Ne.symm hsplit.1)

/-- An upload is not stored as it was sent when its length is the one of the
whole body and no header line of the part gives another: what is written goes
on behind the content. -/
theorem not_stores_of_whole_length (upload : Upload) {req : HttpRequest}
    {t : Timestamp} {buf : Buffer} (hbuf : buf.Inv) {rest : Bytes}
    (hread : buf.readable = upload.text ++ rest)
    (hlength : (upload.head.request req t).headers_.lookup (ascii "Content-Length") =
      some (decimal upload.body.length))
    (hpart : ∀ line ∈ upload.part,
      line.take (line.idxOf (chr ':')) ≠ ascii "Content-Length")
    (hshort : upload.body.length < 2 ^ 31) :
    ¬ Stores env before order server ⟨.kExpectRequestLine, req⟩ buf t
      upload.content := by
  have hforce : (upload.request req t).contentLength = upload.body.length := by
    unfold HttpRequest.contentLength HttpRequest.getHeader Upload.request
    rw [lookup_addFields_of_ne hpart, hlength, Option.getD_some, atoi_decimal,
      Int.bmod_def]
    omega
  have hlonger : upload.content.length < upload.body.length := by
    simp [Upload.body, Upload.closing, kCRLF]
    omega
  rw [stores_iff_cut upload req t hbuf hread, hforce]
  intro hstored
  have hsame := hstored.2.1
  omega

end Stored

/-! ## An upload that is stored with its closing boundary -/

def helloFields : List Bytes :=
  [ascii "Content-Type: multipart/form-data; boundary=-X",
    ascii "Content-Length: 83"]

def helloPart : List Bytes :=
  [ascii "Content-Disposition: form-data; name=\"f\"; filename=\"a.txt\""]

theorem kPost_valid : Method.kPost ≠ .kInvalid := by
  decide

theorem upload_noBlank : chr ' ' ∉ ascii "/upload" := by
  decide

theorem kHttp11_valid : Version.kHttp11 ≠ .kUnknown := by
  decide

def helloLine : RequestLine where
  method := .kPost
  target := ascii "/upload"
  version := .kHttp11
  method_valid := kPost_valid
  target_noBlank := upload_noBlank
  version_valid := kHttp11_valid

theorem helloLines_free :
    ∀ line ∈ helloLine.text :: ascii "-X" :: (helloFields ++ helloPart),
      Free kCRLF line := by
  intro line hline
  apply free_of_notMem (a := 13) (by decide)
  revert hline
  revert line
  decide

theorem helloFields_colon : ∀ line ∈ helloFields, IsField line := by
  decide

theorem helloPart_colon : ∀ line ∈ helloPart, IsField line := by
  decide

def helloHead : RequestHead where
  line := helloLine
  fields := helloFields
  line_free := helloLines_free _ (.head _)
  fields_free := fun line hline =>
    helloLines_free line (.tail _ (.tail _ (List.mem_append_left _ hline)))
  fields_colon := helloFields_colon

def helloUpload : Upload where
  head := helloHead
  boundary := ascii "-X"
  part := helloPart
  content := ascii "hello"
  epilogue := kCRLF
  method_eq := rfl
  path_eq := rfl
  boundary_free := helloLines_free _ (.tail _ (.head _))
  part_free := fun line hline =>
    helloLines_free line (.tail _ (.tail _ (List.mem_append_right _ hline)))
  part_colon := helloPart_colon

/-- A directory where every file opens. -/
def emptyDirectory : Environment where
  creates := fun _ _ => true

theorem helloUpload_opens :
    OpensUpload emptyDirectory [] (ascii "/srv/files") (helloUpload.request {} {}) where
  fits := by
    rw [helloUpload.request_path_]
    exact (lt_maxSize (by decide)).le
  missing := rfl
  opened := ⟨ascii "a.txt", by decide, rfl⟩

/-- The part gives the length of its content. -/
def sizedPart : List Bytes := helloPart ++ [ascii "Content-Length: 5"]

theorem sizedPart_free : ∀ line ∈ sizedPart, Free kCRLF line := by
  intro line hline
  apply free_of_notMem (a := 13) (by decide)
  revert hline
  revert line
  decide

theorem sizedPart_colon : ∀ line ∈ sizedPart, IsField line := by
  decide

def sizedUpload : Upload :=
  { helloUpload with
    part := sizedPart
    part_free := sizedPart_free
    part_colon := sizedPart_colon }

theorem sizedUpload_stored :
    StoredAsSent emptyDirectory [] (ascii "/srv/files") (sizedUpload.request {} {})
      sizedUpload.content where
  opens := {
    fits := by
      rw [sizedUpload.request_path_]
      exact (lt_maxSize (by decide)).le
    missing := rfl
    opened := ⟨ascii "a.txt", by decide, rfl⟩ }
  length_eq := by decide +kernel
  noDashes := free_of_notMem (a := 45) (by decide) (by decide)

theorem sizedUpload_readable :
    (ofReadable sizedUpload.text).Inv ∧
      (ofReadable sizedUpload.text).readable = sizedUpload.text ++ [] := by
  refine ⟨ofReadable_inv (lt_maxSize (by decide +kernel)).le, ?_⟩
  rw [List.append_nil]
  exact ofReadable_readable _

/-- The five bytes of the content are stored, and no others. -/
theorem upload_stored_sized :
    Stores emptyDirectory [] storedOrder { workPath_ := ascii "/srv/files" }
      ⟨.kExpectRequestLine, {}⟩ (ofReadable sizedUpload.text) {} (ascii "hello") :=
  (upload_stored_iff sizedUpload {} {} sizedUpload_readable.1 sizedUpload_readable.2).mpr
    sizedUpload_stored

/-- What the handler writes for the request in the buffer. -/
def contents (buf : Buffer) : Exec (List Bytes) :=
  (fun r => (dispatched r.2.2).map fun request => uploadContent request.m_string) <$>
    onMessage {} buf {}

/-- In a new buffer: the five bytes are written with the closing boundary and
the bytes of the vector behind it. -/
theorem hello_not_stored :
    (helloUpload.head.request {} {}).headers_.lookup (ascii "Content-Length") =
        some (decimal helloUpload.body.length) ∧
      OpensUpload emptyDirectory [] (ascii "/srv/files")
        (helloUpload.request {} {}) ∧
      ∃ buf, initial.append helloUpload.text = .ok buf ∧
        contents buf =
          .ok [ascii "hello\r\n---X--\r\n" ++ List.replicate 68 0] ∧
        ¬ Stores emptyDirectory [] storedOrder { workPath_ := ascii "/srv/files" }
          ⟨.kExpectRequestLine, {}⟩ buf {} helloUpload.content := by
  have hlength : (helloUpload.head.request {} {}).headers_.lookup
      (ascii "Content-Length") = some (decimal helloUpload.body.length) := by
    decide +kernel
  have hcheck : contents <$> initial.append helloUpload.text =
      .ok (.ok [ascii "hello\r\n---X--\r\n" ++ List.replicate 68 0]) := by
    decide +kernel
  obtain ⟨buf, happend, hcontents⟩ := map_eq_ok.mp hcheck
  obtain ⟨hbuf, hread, _⟩ := append_spec initial_inv happend
  rw [initial_readable, List.nil_append, ← List.append_nil helloUpload.text] at hread
  refine ⟨hlength, helloUpload_opens, buf, happend, hcontents, ?_⟩
  apply not_stores_of_whole_length helloUpload hbuf hread hlength
  · decide
  · decide +kernel

end MyFileServer
