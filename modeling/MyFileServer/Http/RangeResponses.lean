import MyFileServer.Http.HandlerCalls
import MyFileServer.Http.SelfDelimiting

/-!
# Answers to a range

A client asks for a part of a file by its first and last byte, by its first
byte alone, or by the number of its last bytes.  For each form, when the slice
that the server announces lies inside the file, and when the number of bytes
that it sends is the number that it announces.
-/

namespace MyFileServer

open Execution CallLog Delimiter

/-- The value of a `Range` header with one range; the numbers are texts of
digits of any length. -/
inductive ByteRange
  | slice (first last : Bytes)
  | openEnded (first : Bytes)
  | suffix (count : Bytes)

namespace ByteRange

def text : ByteRange → Bytes
  | .slice first last => ascii "bytes=" ++ first ++ ascii "-" ++ last
  | .openEnded first => ascii "bytes=" ++ first ++ ascii "-" ++ []
  | .suffix count => ascii "bytes=" ++ [] ++ ascii "-" ++ count

/-- A header that a string can hold, with a first byte not behind the last. -/
structure Valid (range : ByteRange) : Prop where
  numbers : match range with
    | .slice first last =>
        IsNumber first ∧ IsNumber last ∧ digitsValue first ≤ digitsValue last
    | .openEnded first => IsNumber first
    | .suffix count => IsNumber count
  fits : range.text.length ≤ maxSize

/-- The first byte that the code computes for a file of length `len`. -/
def firstByte (len : ℤ) : ByteRange → ℤ
  | .slice first _ => digitsValue first
  | .openEnded first => digitsValue first
  | .suffix count => len - digitsValue count

def lastByte (len : ℤ) : ByteRange → ℤ
  | .slice _ last => digitsValue last
  | .openEnded _ => len - 1
  | .suffix _ => len - 1

/-- The number of bytes that the client asks for. -/
def requested (len : ℕ) : ByteRange → ℕ
  | .slice first last => digitsValue last - digitsValue first + 1
  | .openEnded first => len - digitsValue first
  | .suffix count => digitsValue count

/-- The bytes that the client asks for are in the file. -/
def Inside (len : ℕ) : ByteRange → Prop
  | .slice _ last => digitsValue last < len
  | .openEnded first => digitsValue first < len
  | .suffix count => 1 ≤ digitsValue count ∧ digitsValue count ≤ len

/-- Every number is an `int`. -/
def FitsInt : ByteRange → Prop
  | .slice first last => digitsValue first < 2 ^ 31 ∧ digitsValue last < 2 ^ 31
  | .openEnded first => digitsValue first < 2 ^ 31
  | .suffix count => digitsValue count < 2 ^ 31

end ByteRange

/-! ## Reading the header -/

theorem off64_of_bounds {i : ℤ} (hi : -2 ^ 63 ≤ i ∧ i < 2 ^ 63) : off64 i = i := by
  unfold off64
  rw [Int.bmod_def]
  split_ifs <;> omega

/-- Six bytes of any kind, and the two sides of the first dash. -/
theorem parseRange_of_cut {unit front back : Bytes} (hunit : unit.length = 6)
    (hfront : chr '-' ∉ front)
    (hfit : (unit ++ front ++ ascii "-" ++ back).length ≤ maxSize) (len : ℤ) :
    parseRange (unit ++ front ++ ascii "-" ++ back) len =
      if front ≠ [] ∧ back ≠ [] then do
        return (← stoi front, ← stoi back)
      else if front ≠ [] then do
        return (← stoi front, len - 1)
      else if back ≠ [] then do
        return (off64 (len - (← stoi back)), len - 1)
      else
        return (0, 0) := by
  have hvalue : substr (unit ++ front ++ ascii "-" ++ back) 6 =
      .ok (front ++ ascii "-" ++ back) := by
    rw [List.append_assoc, List.append_assoc, substr_eq_ok, List.append_assoc]
    exact ⟨by simp [hunit], (List.drop_left' hunit).symm⟩
  have hpos : find (front ++ ascii "-" ++ back) (ascii "-") = front.length := by
    rw [find_of_occurrence (by decide)]
    apply search_line (by decide) (unbordered_of_head_notMem (by decide))
    exact free_of_notMem (by decide) hfront
  have hbound := maxSize_lt
  have hone : (ascii "-").length = 1 := rfl
  have hnext : addSizeT front.length 1 = front.length + 1 := by
    apply addSizeT_eq
    simp only [List.length_append] at hfit
    omega
  have hback : substr (front ++ ascii "-" ++ back) (front.length + 1) = .ok back :=
    substr_eq_ok.mpr ⟨by simp [ascii], by simp [ascii]⟩
  have hbeg : (front ++ ascii "-" ++ back).take front.length = front := by
    rw [List.append_assoc, List.take_left]
  unfold parseRange
  rw [hvalue]
  change (substr _ (addSizeT (find (front ++ ascii "-" ++ back) (ascii "-")) 1) >>= _) = _
  rw [hpos, hnext, hback, hbeg]
  rfl

theorem ByteRange.text_ne_nil (range : ByteRange) : range.text ≠ [] := by
  cases range <;> simp [ByteRange.text, ascii]

theorem ByteRange.Valid.parseRange_eq_ok {range : ByteRange} (hvalid : range.Valid)
    {len : ℤ} (hlow : 0 ≤ len) (hhigh : len < 2 ^ 63) {bounds : ℤ × ℤ} :
    parseRange range.text len = .ok bounds ↔
      range.FitsInt ∧ bounds = (range.firstByte len, range.lastByte len) := by
  obtain ⟨hnumbers, hfits⟩ := hvalid
  have hdash {number : Bytes} (hnumber : IsNumber number) : chr '-' ∉ number :=
    hnumber.notMem_of_not_isdigit (by decide)
  cases range with
  | slice first last =>
      obtain ⟨hfirst, hlast, _⟩ := hnumbers
      unfold ByteRange.text
      rw [parseRange_of_cut rfl (hdash hfirst) hfits, if_pos ⟨hfirst.nonempty, hlast.nonempty⟩]
      simp only [bind_eq_ok, hfirst.stoi_eq_ok, hlast.stoi_eq_ok]
      constructor
      · intro h
        obtain ⟨_, ⟨hsmall, rfl⟩, _, ⟨hsmall', rfl⟩, hpair⟩ := h
        exact ⟨⟨hsmall, hsmall'⟩, (Except.ok.inj hpair).symm⟩
      · intro h
        obtain ⟨⟨hsmall, hsmall'⟩, rfl⟩ := h
        exact ⟨_, ⟨hsmall, rfl⟩, _, ⟨hsmall', rfl⟩, rfl⟩
  | openEnded first =>
      have hfirst : IsNumber first := hnumbers
      unfold ByteRange.text
      rw [parseRange_of_cut rfl (hdash hfirst) hfits, if_neg (by simp),
        if_pos hfirst.nonempty]
      simp only [bind_eq_ok, hfirst.stoi_eq_ok]
      constructor
      · intro h
        obtain ⟨_, ⟨hsmall, rfl⟩, hpair⟩ := h
        exact ⟨hsmall, (Except.ok.inj hpair).symm⟩
      · intro h
        obtain ⟨hsmall, rfl⟩ := h
        exact ⟨_, ⟨hsmall, rfl⟩, rfl⟩
  | suffix count =>
      have hcount : IsNumber count := hnumbers
      have hwrap (hsmall : digitsValue count < 2 ^ 31) :
          off64 (len - digitsValue count) = len - digitsValue count :=
        off64_of_bounds ⟨by omega, by omega⟩
      unfold ByteRange.text
      rw [parseRange_of_cut rfl List.not_mem_nil hfits, if_neg (by simp), if_neg (by simp),
        if_pos hcount.nonempty]
      simp only [bind_eq_ok, hcount.stoi_eq_ok]
      constructor
      · intro h
        obtain ⟨_, ⟨hsmall, rfl⟩, hpair⟩ := h
        refine ⟨hsmall, ?_⟩
        rw [← Except.ok.inj hpair, hwrap hsmall]
        rfl
      · intro h
        obtain ⟨hsmall, rfl⟩ := h
        refine ⟨_, ⟨hsmall, rfl⟩, ?_⟩
        rw [hwrap hsmall]
        rfl

/-! ## The slice -/

def contentRange (first last len : ℤ) : Bytes :=
  ascii "bytes " ++ to_string first ++ ascii "-" ++ to_string last ++ ascii "/" ++
    to_string len

namespace ByteRange.Valid

variable {range : ByteRange} (hvalid : range.Valid) {len : ℕ}

include hvalid

theorem inside_iff :
    (0 ≤ range.firstByte len ∧ range.firstByte len ≤ range.lastByte len ∧ range.lastByte len < len) ↔
      range.Inside len := by
  have hnumbers := hvalid.numbers
  cases range with
  | slice first last =>
      obtain ⟨_, _, horder⟩ := hnumbers
      simp only [firstByte, lastByte, Inside]
      omega
  | openEnded first =>
      simp only [firstByte, lastByte, Inside]
      omega
  | suffix count =>
      simp only [firstByte, lastByte, Inside]
      omega

theorem bounds_fit (hlen : len < 2 ^ 63) (hsmall : range.FitsInt) :
    (-2 ^ 63 ≤ range.lastByte len - range.firstByte len + 1 ∧
      range.lastByte len - range.firstByte len + 1 < 2 ^ 63) ∧
      -2 ^ 63 ≤ range.lastByte len ∧ range.lastByte len < 2 ^ 63 := by
  have hnumbers := hvalid.numbers
  cases range with
  | slice first last =>
      obtain ⟨_, _, horder⟩ := hnumbers
      simp only [firstByte, lastByte, FitsInt] at hsmall ⊢
      omega
  | openEnded first =>
      simp only [firstByte, lastByte, FitsInt] at hsmall ⊢
      omega
  | suffix count =>
      simp only [firstByte, lastByte, FitsInt] at hsmall ⊢
      omega

theorem needLen_eq (hlen : len < 2 ^ 63) (hsmall : range.FitsInt) :
    needLen (range.firstByte len, range.lastByte len) =
      range.lastByte len - range.firstByte len + 1 :=
  off64_of_bounds (hvalid.bounds_fit hlen hsmall).1

theorem requested_eq (hinside : range.Inside len) :
    range.lastByte len - range.firstByte len + 1 = range.requested len := by
  have hnumbers := hvalid.numbers
  cases range with
  | slice first last =>
      obtain ⟨_, _, horder⟩ := hnumbers
      simp only [firstByte, lastByte, requested]
      omega
  | openEnded first =>
      simp only [firstByte, lastByte, requested, Inside] at hinside ⊢
      omega
  | suffix count =>
      simp only [firstByte, lastByte, requested]
      omega

end ByteRange.Valid

/-! ## What is announced and sought -/

/-- The slice of the header `Content-Range`, to whose start the file is set, is
in a file of length `len`. -/
def SliceInside (len : ℕ) (calls : List SysCall) (response : HttpResponse) : Prop :=
  ∃ fd first last : ℤ, SysCall.lseek fd first ∈ calls ∧
    response.headers_.lookup (ascii "Content-Range") = some (contentRange first last len) ∧
    response.headers_.lookup contentLengthName = some (to_string (last - first + 1)) ∧
    0 ≤ first ∧ first ≤ last ∧ last < len

/-- The answer with the slice from `first` to `last`. -/
def sliceResponse (first last len : ℤ) (res : HttpResponse) : HttpResponse :=
  ((((res.setStatusCode .k206Partitial).setStatusMessage
    (ascii "Partial Content")).setSendLen (Int.bmod (last - first + 1) (2 ^ 32))).addHeader
      (ascii "Content-Range") (contentRange first last len)).addHeader
        contentLengthName (to_string (last - first + 1))

theorem lookup_contentRange (first last len : ℤ) (res : HttpResponse) :
    (sliceResponse first last len res).headers_.lookup (ascii "Content-Range") =
      some (contentRange first last len) := by
  have hname : ascii "Content-Range" ≠ contentLengthName := by decide
  exact (Finmap.lookup_insert_of_ne _ hname).trans (Finmap.lookup_insert _)

theorem lookup_contentLength (first last len : ℤ) (res : HttpResponse) :
    (sliceResponse first last len res).headers_.lookup contentLengthName =
      some (to_string (last - first + 1)) :=
  Finmap.lookup_insert _

theorem to_string_injective : Function.Injective to_string := by
  intro i j h
  unfold to_string at h
  split_ifs at h with hi hj hj
  · have habs := decimal_injective (List.cons.inj h).2
    omega
  · exact absurd (isdigit_of_mem_decimal (h ▸ List.mem_cons_self)) (by decide)
  · exact absurd (isdigit_of_mem_decimal (h ▸ List.mem_cons_self)) (by decide)
  · have habs := decimal_injective h
    omega

theorem contentRange_last_injective {first last last' len : ℤ}
    (h : contentRange first last len = contentRange first last' len) : last = last' := by
  unfold contentRange at h
  rw [List.append_left_inj, List.append_left_inj, List.append_right_inj] at h
  exact to_string_injective h

/-- Only one slice is announced and sought. -/
theorem sliceInside_iff (path : Bytes) (fd first last : ℤ) (len : ℕ) (res : HttpResponse) :
    SliceInside len [.stat path, .openFile path, .lseek fd first]
        (sliceResponse first last len res) ↔
      0 ≤ first ∧ first ≤ last ∧ last < len := by
  unfold SliceInside
  rw [lookup_contentRange, lookup_contentLength]
  constructor
  · intro h
    obtain ⟨fd', first', last', hseek, hslice, _, hinside⟩ := h
    obtain ⟨_, rfl⟩ : fd' = fd ∧ first' = first := by simpa using hseek
    obtain rfl := contentRange_last_injective (Option.some.inj hslice)
    exact hinside
  · intro hinside
    exact ⟨fd, first, last, by simp, rfl, rfl, hinside⟩

section Response

variable {env : Environment} {before : List SysCall} {server : FileServer}
  {req : HttpRequest} {path : Bytes} {res response : HttpResponse}
  {range : ByteRange}

theorem sendRange_of_bounds {text : Bytes} {first last len fd : ℤ}
    (hbounds : parseRange text len = .ok (first, last))
    (hneed : needLen (first, last) = last - first + 1) (hlast : off64 last = last) :
    sendRange text len fd res before =
      ⟨.ok (sliceResponse first last len res), [.lseek fd first]⟩ := by
  have hsum : first + (last - first + 1) - 1 = last := by ring
  have hrun : sendRange text len fd res before =
      ⟨.ok (((((res.setStatusCode .k206Partitial).setStatusMessage
          (ascii "Partial Content")).setSendLen
            (Int.bmod (needLen (first, last)) (2 ^ 32))).addHeader
              (ascii "Content-Range")
              (contentRange first (off64 (first + needLen (first, last) - 1)) len)).addHeader
                contentLengthName (to_string (needLen (first, last)))),
        [.lseek fd first]⟩ := by
    unfold sendRange
    rw [hbounds]
    rfl
  rw [hneed, hsum, hlast] at hrun
  exact hrun

/-- The descriptor of the file that the path names. -/
def openedDescriptor (env : Environment) (before : List SysCall) (path : Bytes) : ℤ :=
  env.descriptor (before ++ [.stat path]) (cstr path)

section Existing

variable {buffer : FileStatus}
  (hfit : server.workPath_.length + req.path_.length ≤ maxSize)
  (hstatus : env.status before (cstr (server.workPath_ ++ req.path_)) = some buffer)
  (hkind : buffer.kind = .regular)

include hfit hstatus hkind

theorem setResponseBody_of_whole (hrange : req.getHeader (ascii "Range") = []) :
    setResponseBody env server req res before =
      ⟨.ok (server, sendWhole buffer.st_size (describeFile
          (openedDescriptor env before (server.workPath_ ++ req.path_)) req res)),
        [.stat (server.workPath_ ++ req.path_),
          .openFile (server.workPath_ ++ req.path_)]⟩ := by
  rw [setResponseBody_of_some hfit hstatus]
  generalize server.workPath_ ++ req.path_ = path
  have hsent : sendExisting env req path buffer res (before ++ [.stat path]) =
      ⟨.ok (sendWhole buffer.st_size
          (describeFile (openedDescriptor env before path) req res)), [.openFile path]⟩ := by
    unfold sendExisting sendRegular Environment.openFile
    rw [hkind]
    dsimp only
    rw [perform_bind, if_neg (not_not.mpr hrange)]
    rfl
  rw [hsent]
  rfl

theorem setResponseBody_of_range (res : HttpResponse) (hvalid : range.Valid)
    (hrange : req.getHeader (ascii "Range") = range.text) (hsmall : range.FitsInt) :
    setResponseBody env server req res before =
      ⟨.ok (server, sliceResponse (range.firstByte buffer.st_size)
          (range.lastByte buffer.st_size) buffer.st_size (describeFile
            (openedDescriptor env before (server.workPath_ ++ req.path_)) req res)),
        [.stat (server.workPath_ ++ req.path_), .openFile (server.workPath_ ++ req.path_),
          .lseek (openedDescriptor env before (server.workPath_ ++ req.path_))
            (range.firstByte buffer.st_size)]⟩ := by
  have hlen := buffer.size_lt
  have hbounds : parseRange range.text buffer.st_size =
      .ok (range.firstByte buffer.st_size, range.lastByte buffer.st_size) :=
    (hvalid.parseRange_eq_ok (by omega) (by omega)).mpr ⟨hsmall, rfl⟩
  have hneed := hvalid.needLen_eq hlen hsmall
  have hlast := off64_of_bounds (hvalid.bounds_fit hlen hsmall).2
  have hasked : req.getHeader (ascii "Range") ≠ [] := by
    rw [hrange]
    exact range.text_ne_nil
  rw [setResponseBody_of_some hfit hstatus]
  generalize server.workPath_ ++ req.path_ = path
  have hsent : sendExisting env req path buffer res (before ++ [.stat path]) =
      ⟨.ok (sliceResponse (range.firstByte buffer.st_size)
          (range.lastByte buffer.st_size) buffer.st_size
          (describeFile (openedDescriptor env before path) req res)),
        [.openFile path, .lseek (openedDescriptor env before path)
          (range.firstByte buffer.st_size)]⟩ := by
    unfold sendExisting sendRegular Environment.openFile
    rw [hkind]
    dsimp only
    rw [perform_bind, if_pos hasked, hrange, sendRange_of_bounds hbounds hneed hlast]
    rfl
  rw [hsent]
  rfl

end Existing

/-- A request that is answered had short enough numbers. -/
theorem fitsInt_of_answer (hvalid : range.Valid) {buffer : FileStatus}
    (hstatus : env.status before (cstr (server.workPath_ ++ req.path_)) = some buffer)
    (hkind : buffer.kind = .regular) (hrange : req.getHeader (ascii "Range") = range.text)
    {built : FileServer × HttpResponse}
    (hcall : (setResponseBody env server req res before).result = .ok built) :
    server.workPath_.length + req.path_.length ≤ maxSize ∧ range.FitsInt := by
  have hanswer := hcall
  unfold setResponseBody at hanswer
  obtain ⟨path, hpath, _⟩ := lift_bind_result_eq_ok.mp hanswer
  have hfit := (concat_eq_ok.mp hpath).1
  refine ⟨hfit, ?_⟩
  have hlen := buffer.size_lt
  have hasked : req.getHeader (ascii "Range") ≠ [] := by
    rw [hrange]
    exact range.text_ne_nil
  rw [setResponseBody_of_some hfit hstatus] at hcall
  unfold sendExisting sendRegular Environment.openFile at hcall
  rw [hkind] at hcall
  dsimp only at hcall
  rw [perform_bind, if_pos hasked, hrange] at hcall
  have hreturns : Returns (sendRange range.text buffer.st_size
      (openedDescriptor env before (server.workPath_ ++ req.path_))
      (describeFile (openedDescriptor env before (server.workPath_ ++ req.path_)) req res)
      (before ++ [.stat (server.workPath_ ++ req.path_)] ++
        [.openFile (server.workPath_ ++ req.path_)])).result :=
    returns_map.mp ⟨built, hcall⟩
  obtain ⟨response, hresponse⟩ := hreturns
  unfold sendRange at hresponse
  obtain ⟨bounds, hbounds, _⟩ := lift_bind_result_eq_ok.mp hresponse
  exact ((hvalid.parseRange_eq_ok (by omega) (by omega)).mp hbounds).1

/-! ## Slices inside the file -/

/-- An answer to a range keeps inside the file exactly when what the client
asks for is there. -/
theorem range_slice_inside_iff (hvalid : range.Valid) {buffer : FileStatus}
    (hstatus : env.status before (cstr (server.workPath_ ++ req.path_)) = some buffer)
    (hkind : buffer.kind = .regular) (hrange : req.getHeader (ascii "Range") = range.text)
    {built : FileServer × HttpResponse}
    (hcall : (setResponseBody env server req res before).result = .ok built) :
    built.2.statusCode_ = .k206Partitial ∧
      (SliceInside buffer.st_size (setResponseBody env server req res before).calls built.2 ↔
        range.Inside buffer.st_size) := by
  obtain ⟨hfit, hsmall⟩ := fitsInt_of_answer hvalid hstatus hkind hrange hcall
  have hrun := setResponseBody_of_range hfit hstatus hkind res hvalid hrange hsmall
  rw [hrun] at hcall ⊢
  obtain rfl := Except.ok.inj hcall
  refine ⟨rfl, ?_⟩
  rw [← hvalid.inside_iff]
  exact sliceInside_iff _ _ _ _ _ _

/-! ## The number of bytes that are sent -/

/-- Every length that is given to `sendFile` is the announced one. -/
def SendsAnnounced (response : HttpResponse) (actions : List ConnAction) : Prop :=
  ∀ fd count, .sendFile fd count ∈ actions →
    response.headers_.lookup contentLengthName = some (decimal count)

theorem sendFile_mem_iff {text : Bytes} {fd : ℤ} {count : ℕ} :
    .sendFile fd count ∈
        .send text :: (fileActions response ++ closeActions response) ↔
      response.fd_ ≠ -1 ∧ fd = response.fd_ ∧ count = toSizeT (response.len_.getD 0) := by
  unfold fileActions closeActions HttpResponse.needSendFile
  by_cases hfd : response.fd_ = -1 <;> cases response.closeConnection_ <;> simp [hfd]

theorem sendsAnnounced_iff {text : Bytes} {announced sent : ℤ}
    (hannounced : response.headers_.lookup contentLengthName = some (to_string announced))
    (hsent : response.len_ = some sent) :
    SendsAnnounced response
        (.send text :: (fileActions response ++ closeActions response)) ↔
      response.fd_ = -1 ∨ announced = toSizeT sent := by
  unfold SendsAnnounced
  simp only [sendFile_mem_iff, hannounced, hsent, Option.getD_some, Option.some.injEq]
  constructor
  · intro hall
    by_cases hfd : response.fd_ = -1
    · exact .inl hfd
    · have hone := hall response.fd_ (toSizeT sent) ⟨hfd, rfl, rfl⟩
      exact .inr (to_string_eq_decimal_iff.mp hone)
  · intro hcase fd count hmem
    obtain ⟨hfd, _, rfl⟩ := hmem
    exact to_string_eq_decimal_iff.mpr (hcase.resolve_left hfd)

theorem sendsAnnounced_favicon (hfd : response.fd_ = -1) {text : Bytes} :
    SendsAnnounced response
      (.send text :: (fileActions response ++ closeActions response)) := by
  intro fd count hmem
  exact absurd hfd (sendFile_mem_iff.mp hmem).1

theorem buildResponse_sends_announced_iff {asked : Option ByteRange} {buffer : FileStatus}
    (hvalid : ∀ range ∈ asked, range.Valid)
    (hinside : ∀ range ∈ asked, range.Inside buffer.st_size)
    (hstatus : env.status before (cstr (server.workPath_ ++ req.path_)) = some buffer)
    (hkind : buffer.kind = .regular)
    (hrange : req.getHeader (ascii "Range") = asked.elim [] ByteRange.text)
    {built : FileServer × HttpResponse} {text : Bytes}
    (hcall : (buildResponse env server req before).result = .ok built) :
    SendsAnnounced built.2 (.send text :: (fileActions built.2 ++ closeActions built.2)) ↔
      req.path_ = ascii "/favicon.ico" ∨
        openedDescriptor env before (server.workPath_ ++ req.path_) = -1 ∨
          ∀ range ∈ asked, range.requested buffer.st_size < 2 ^ 31 := by
  have hlen := buffer.size_lt
  unfold buildResponse at hcall
  by_cases hfavicon : req.path_ = ascii "/favicon.ico"
  · rw [if_pos hfavicon] at hcall
    obtain rfl := Except.ok.inj hcall
    exact iff_of_true (sendsAnnounced_favicon rfl) (.inl hfavicon)
  · rw [if_neg hfavicon] at hcall
    rw [or_iff_right hfavicon]
    cases asked with
    | none =>
        have hfit : server.workPath_.length + req.path_.length ≤ maxSize := by
          have hanswer := hcall
          unfold setResponseBody at hanswer
          obtain ⟨_, hpath, _⟩ := lift_bind_result_eq_ok.mp hanswer
          exact (concat_eq_ok.mp hpath).1
        rw [setResponseBody_of_whole hfit hstatus hkind hrange] at hcall
        obtain rfl := Except.ok.inj hcall
        rw [sendsAnnounced_iff (Finmap.lookup_insert _) rfl]
        have hwhole := (toSizeT_eq_iff (i := buffer.st_size) (by omega) (by omega)).mpr
          (by omega)
        exact iff_of_true (.inr hwhole) (.inr fun range hmem => nomatch hmem)
    | some range =>
        have hvalid := hvalid range rfl
        have hrequested := hvalid.requested_eq (hinside range rfl)
        obtain ⟨hfit, hsmall⟩ := fitsInt_of_answer hvalid hstatus hkind hrange hcall
        rw [setResponseBody_of_range hfit hstatus hkind _ hvalid hrange hsmall] at hcall
        obtain rfl := Except.ok.inj hcall
        rw [sendsAnnounced_iff (lookup_contentLength _ _ _ _) rfl,
          toSizeT_int_eq_iff (hvalid.bounds_fit hlen hsmall).1.1
            (hvalid.bounds_fit hlen hsmall).1.2, hrequested]
        simp only [Option.mem_some_iff, forall_eq']
        apply or_congr_right
        omega

/-- For a regular file the number of bytes that are sent is the announced one,
exactly when the whole file is sent or what the client asks for is short. -/
theorem onRequest_sends_announced_iff {asked : Option ByteRange} {buffer : FileStatus}
    (hvalid : ∀ range ∈ asked, range.Valid)
    (hinside : ∀ range ∈ asked, range.Inside buffer.st_size)
    (hstatus : env.status before (cstr (server.workPath_ ++ req.path_)) = some buffer)
    (hkind : buffer.kind = .regular)
    (hrange : req.getHeader (ascii "Range") = asked.elim [] ByteRange.text)
    {order : (headers : Headers) → Traversal headers} {server' : FileServer}
    {actions : List ConnAction}
    (hcall : (onRequest env order server req before).result = .ok (server', actions)) :
    ∃ response, (buildResponse env server req before).result = .ok (server', response) ∧
      (∃ rest, actions = .send (response.text (order response.headers_)) :: rest) ∧
      (SendsAnnounced response actions ↔
        req.path_ = ascii "/favicon.ico" ∨
          openedDescriptor env before (server.workPath_ ++ req.path_) = -1 ∨
            ∀ range ∈ asked, range.requested buffer.st_size < 2 ^ 31) := by
  obtain ⟨response, hbuilt, hsent⟩ := onRequest_eq_ok hcall
  rw [sendResponse_spec hsent]
  exact ⟨response, hbuilt, ⟨_, rfl⟩,
    buildResponse_sends_announced_iff hvalid hinside hstatus hkind hrange hbuilt⟩

end Response

/-! ## Two files -/

def rangeRequest (value : Bytes) : HttpRequest where
  path_ := ascii "/a"
  headers_ := Finmap.insert (ascii "Range") value ∅

def rangeServer : FileServer := { workPath_ := ascii "/srv" }

def sizedFile (size : ℕ) (hsize : size < 2 ^ 63) : Environment where
  status := fun _ _ => some ⟨.regular, size, hsize⟩
  descriptor := fun _ _ => 5

theorem setResponseBody_rangeRequest {range : ByteRange} (hvalid : range.Valid)
    (hsmall : range.FitsInt) {size : ℕ} (hsize : size < 2 ^ 63) (res : HttpResponse) :
    setResponseBody (sizedFile size hsize) rangeServer (rangeRequest range.text) res [] =
      ⟨.ok (rangeServer, sliceResponse (range.firstByte size) (range.lastByte size) size
          (describeFile 5 (rangeRequest range.text) res)),
        [.stat (ascii "/srv/a"), .openFile (ascii "/srv/a"),
          .lseek 5 (range.firstByte size)]⟩ := by
  have hpath : rangeServer.workPath_ ++ (rangeRequest range.text).path_ =
      ascii "/srv/a" := rfl
  have hfit : rangeServer.workPath_.length + (rangeRequest range.text).path_.length ≤
      maxSize := by
    rw [← List.length_append, hpath]
    exact (lt_maxSize (by decide)).le
  have hrange : (rangeRequest range.text).getHeader (ascii "Range") = range.text := by
    unfold HttpRequest.getHeader rangeRequest
    rw [Finmap.lookup_insert, Option.getD_some]
  have hstatus : (sizedFile size hsize).status [] (cstr (ascii "/srv/a")) =
      some ⟨.regular, size, hsize⟩ := rfl
  have hfd : openedDescriptor (sizedFile size hsize) [] (ascii "/srv/a") = 5 := rfl
  rw [← hpath] at hstatus
  have hrun := setResponseBody_of_range hfit hstatus rfl res hvalid hrange hsmall
  rw [hpath, hfd] at hrun
  exact hrun

theorem isNumber_ascii {text : Bytes} (hne : text ≠ []) (hdigits : text.all isdigit = true) :
    IsNumber text where
  nonempty := hne
  digits := by simpa using hdigits

def middleRange : ByteRange := .slice (ascii "2") (ascii "4")

def behindRange : ByteRange := .slice (ascii "20") (ascii "30")

def wholeRange : ByteRange := .openEnded (ascii "0")

theorem valid_middleRange : middleRange.Valid where
  numbers := ⟨isNumber_ascii (by decide) (by decide), isNumber_ascii (by decide) (by decide),
    by decide⟩
  fits := (lt_maxSize (by decide)).le

theorem valid_behindRange : behindRange.Valid where
  numbers := ⟨isNumber_ascii (by decide) (by decide), isNumber_ascii (by decide) (by decide),
    by decide⟩
  fits := (lt_maxSize (by decide)).le

theorem valid_wholeRange : wholeRange.Valid where
  numbers := isNumber_ascii (by decide) (by decide)
  fits := (lt_maxSize (by decide)).le

/-- Three bytes in the middle of ten. -/
theorem range_slice_inside_middle :
    ∃ built, (setResponseBody (sizedFile 10 (by decide)) rangeServer
        (rangeRequest middleRange.text) { closeConnection_ := false } []).result = .ok built ∧
      built.2.statusCode_ = .k206Partitial ∧
      (SliceInside 10 (setResponseBody (sizedFile 10 (by decide)) rangeServer
          (rangeRequest middleRange.text) { closeConnection_ := false } []).calls built.2 ↔
        middleRange.Inside 10) := by
  have hsmall : middleRange.FitsInt := ⟨by decide, by decide⟩
  have hrun := setResponseBody_rangeRequest valid_middleRange hsmall
    (by decide : 10 < 2 ^ 63) { closeConnection_ := false }
  have hstatus : (sizedFile 10 (by decide)).status []
      (cstr (rangeServer.workPath_ ++ (rangeRequest middleRange.text).path_)) =
        some ⟨.regular, 10, by decide⟩ := rfl
  have hrange : (rangeRequest middleRange.text).getHeader (ascii "Range") =
      middleRange.text := by
    unfold HttpRequest.getHeader rangeRequest
    rw [Finmap.lookup_insert, Option.getD_some]
  have hresult := congrArg Outcome.result hrun
  exact ⟨_, hresult, range_slice_inside_iff valid_middleRange hstatus rfl hrange hresult⟩

/-- The bytes 20 to 30 of ten. -/
theorem range_slice_behind :
    ∃ built, (setResponseBody (sizedFile 10 (by decide)) rangeServer
        (rangeRequest behindRange.text) { closeConnection_ := false } []).result = .ok built ∧
      built.2.statusCode_ = .k206Partitial ∧
      ¬ SliceInside 10 (setResponseBody (sizedFile 10 (by decide)) rangeServer
          (rangeRequest behindRange.text) { closeConnection_ := false } []).calls built.2 := by
  have hsmall : behindRange.FitsInt := ⟨by decide, by decide⟩
  have hrun := setResponseBody_rangeRequest valid_behindRange hsmall
    (by decide : 10 < 2 ^ 63) { closeConnection_ := false }
  refine ⟨_, congrArg Outcome.result hrun, rfl, ?_⟩
  rw [hrun, sliceInside_iff]
  have hlast : behindRange.lastByte 10 = 30 := by decide
  change ¬ (_ ∧ _ ∧ behindRange.lastByte 10 < 10)
  rw [hlast]
  omega

/-- The answer to a range of the file with 5 as its descriptor. -/
def rangeAnswer (value : Bytes) (first last len : ℤ) : HttpResponse :=
  sliceResponse first last len
    (describeFile 5 (rangeRequest value) { closeConnection_ := false })

theorem buildResponse_rangeRequest {range : ByteRange} (hvalid : range.Valid)
    (hsmall : range.FitsInt) {size : ℕ} (hsize : size < 2 ^ 63) :
    (buildResponse (sizedFile size hsize) rangeServer (rangeRequest range.text) []).result =
      .ok (rangeServer,
        rangeAnswer range.text (range.firstByte size) (range.lastByte size) size) := by
  have hpath : (rangeRequest range.text).path_ = ascii "/a" := rfl
  have hopen : (rangeRequest range.text).wantsClose = false := by
    have hnone : (rangeRequest range.text).getHeader (ascii "Connection") = [] := by
      unfold HttpRequest.getHeader rangeRequest
      rw [Finmap.lookup_insert_of_ne _ (by decide), Finmap.lookup_empty]
      rfl
    have hversion : (rangeRequest range.text).version_ = .kUnknown := rfl
    unfold HttpRequest.wantsClose
    rw [hnone, hversion]
    decide
  unfold buildResponse
  rw [hpath, hopen, if_neg (by decide), setResponseBody_rangeRequest hvalid hsmall hsize]
  rfl

theorem headerLines_middleRange :
    headerLines (rangeAnswer middleRange.text 2 4 10).headers_ =
      ([(contentLengthName, ascii "3"),
        (ascii "Content-Range", ascii "bytes 2-4/10"),
        (ascii "Accept-Ranges", ascii "bytes"),
        (ascii "Content-Type", defaultType)] : List HeaderLine) := by
  decide +kernel

theorem headerLines_wholeRange :
    headerLines (rangeAnswer wholeRange.text 0 (2 ^ 31 - 1) (2 ^ 31)).headers_ =
      ([(contentLengthName, ascii "2147483648"),
        (ascii "Content-Range", ascii "bytes 0-2147483647/2147483648"),
        (ascii "Accept-Ranges", ascii "bytes"),
        (ascii "Content-Type", defaultType)] : List HeaderLine) := by
  decide +kernel

theorem onRequest_middleRange (order : (headers : Headers) → Traversal headers) :
    (onRequest (sizedFile 10 (by decide)) order rangeServer
        (rangeRequest middleRange.text) []).result =
      .ok (rangeServer, [
        .send ((rangeAnswer middleRange.text 2 4 10).text (order _)), .sendFile 5 3]) := by
  have hsmall : middleRange.FitsInt := ⟨by decide, by decide⟩
  have hbuilt := buildResponse_rangeRequest valid_middleRange hsmall
    (by decide : 10 < 2 ^ 63)
  have hfirst : middleRange.firstByte (10 : ℕ) = 2 := by decide
  have hlast : middleRange.lastByte (10 : ℕ) = 4 := by decide
  rw [hfirst, hlast] at hbuilt
  refine onRequest_of_short hbuilt ?_
  rw [HttpResponse.sum_length_pieces (order _) headerLines_middleRange]
  decide +kernel

theorem onRequest_wholeRange (order : (headers : Headers) → Traversal headers) :
    (onRequest (sizedFile (2 ^ 31) (by decide)) order rangeServer
        (rangeRequest wholeRange.text) []).result =
      .ok (rangeServer, [
        .send ((rangeAnswer wholeRange.text 0 (2 ^ 31 - 1) (2 ^ 31)).text (order _)),
        .sendFile 5 (2 ^ 64 - 2 ^ 31)]) := by
  have hsmall : wholeRange.FitsInt := by
    change digitsValue (ascii "0") < 2 ^ 31
    decide
  have hbuilt := buildResponse_rangeRequest valid_wholeRange hsmall
    (by decide : 2 ^ 31 < 2 ^ 63)
  have hfirst : wholeRange.firstByte (2 ^ 31 : ℕ) = 0 := by decide
  have hlast : wholeRange.lastByte (2 ^ 31 : ℕ) = 2 ^ 31 - 1 := by decide
  rw [hfirst, hlast] at hbuilt
  refine onRequest_of_short hbuilt ?_
  rw [HttpResponse.sum_length_pieces (order _) headerLines_wholeRange]
  decide +kernel

/-- A slice of ten bytes. -/
theorem onRequest_sends_announced_middle :
    ∃ actions response,
      (buildResponse (sizedFile 10 (by decide)) rangeServer
        (rangeRequest middleRange.text) []).result = .ok (rangeServer, response) ∧
      (∃ rest, actions = .send (response.text (storedOrder response.headers_)) :: rest) ∧
      (SendsAnnounced response actions ↔
        (rangeRequest middleRange.text).path_ = ascii "/favicon.ico" ∨
          openedDescriptor (sizedFile 10 (by decide)) []
              (rangeServer.workPath_ ++ (rangeRequest middleRange.text).path_) = -1 ∨
            ∀ range ∈ some middleRange, range.requested 10 < 2 ^ 31) := by
  have hvalid : ∀ range ∈ some middleRange, range.Valid := by
    intro range hrange
    obtain rfl := Option.mem_some_iff.mp hrange
    exact valid_middleRange
  have hinside : ∀ range ∈ some middleRange, range.Inside 10 := by
    intro range hrange
    obtain rfl := Option.mem_some_iff.mp hrange
    change digitsValue (ascii "4") < 10
    decide
  have hstatus : (sizedFile 10 (by decide)).status []
      (cstr (rangeServer.workPath_ ++ (rangeRequest middleRange.text).path_)) =
        some ⟨.regular, 10, by decide⟩ := rfl
  have hrange : (rangeRequest middleRange.text).getHeader (ascii "Range") =
      (some middleRange).elim [] ByteRange.text := by
    unfold HttpRequest.getHeader rangeRequest
    rw [Finmap.lookup_insert, Option.getD_some]
    rfl
  exact ⟨_, onRequest_sends_announced_iff hvalid hinside hstatus rfl hrange
    (onRequest_middleRange storedOrder)⟩

/-- A range that covers a file of 2 GiB. -/
theorem onRequest_sends_unannounced :
    (onRequest (sizedFile (2 ^ 31) (by decide)) storedOrder rangeServer
        (rangeRequest wholeRange.text) []).result =
      .ok (rangeServer, [
        .send ((rangeAnswer wholeRange.text 0 (2 ^ 31 - 1) (2 ^ 31)).text (storedOrder _)),
        .sendFile 5 (2 ^ 64 - 2 ^ 31)]) ∧
      (rangeAnswer wholeRange.text 0 (2 ^ 31 - 1) (2 ^ 31)).headers_.lookup
        contentLengthName = some (decimal (2 ^ 31)) := by
  refine ⟨onRequest_wholeRange storedOrder, ?_⟩
  have hannounced := lookup_contentLength 0 (2 ^ 31 - 1) (2 ^ 31)
    (describeFile 5 (rangeRequest wholeRange.text) { closeConnection_ := false })
  exact hannounced

end MyFileServer
