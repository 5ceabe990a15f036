import MyFileServer.Http.HandlerCalls
import MyFileServer.Http.RoundTrip

/-!
# The spelling of header names

The code keeps a header under the name as it was spelled, and looks five names
up by their spelling.
-/

namespace MyFileServer

open Execution CallLog Delimiter Buffer

/-- `tolower` in the "C" locale. -/
def tolower (c : UInt8) : UInt8 :=
  if 65 ≤ c ∧ c ≤ 90 then c + 32 else c

theorem eq_of_tolower_eq {c d : UInt8} (hd : d < 65) (h : tolower c = tolower d) :
    c = d := by
  unfold tolower at h
  rw [if_neg (c := 65 ≤ d ∧ d ≤ 90) (by grind)] at h
  split at h
  next hupper =>
    have hlow := UInt8.le_iff_toNat_le.mp hupper.1
    have hhigh := UInt8.le_iff_toNat_le.mp hupper.2
    have hsmall := UInt8.lt_iff_toNat_lt.mp hd
    have hvalue := congrArg UInt8.toNat h
    rw [UInt8.toNat_add] at hvalue
    simp at hlow hhigh hsmall hvalue
    omega
  next => exact h

/-- The names that the code looks up. -/
def lookedUp : List Bytes :=
  [ascii "Connection", ascii "Range", ascii "Content-Length",
    ascii "Content-Type", ascii "Content-Disposition"]

/-- A header line whose name changes the case of its letters, to a name that
`allowed` admits. -/
inductive RecasedField (allowed : Bytes → Bytes → Prop) : Bytes → Bytes → Prop
  | mk {name name' value : Bytes} :
      chr ':' ∉ name → name'.map tolower = name.map tolower →
      allowed name name' →
      RecasedField allowed (name ++ chr ':' :: value) (name' ++ chr ':' :: value)

def AnyCase (_ _ : Bytes) : Prop :=
  True

/-- The name stays as it is, or is no name that the code looks up before the
change and after it. -/
def KeepsLookups (name name' : Bytes) : Prop :=
  name' = name ∨ (name ∉ lookedUp ∧ name' ∉ lookedUp)

theorem noColon_of_map_tolower {name name' : Bytes}
    (hcase : name'.map tolower = name.map tolower) (hname : chr ':' ∉ name) :
    chr ':' ∉ name' := by
  intro hmem
  have hlower : tolower (chr ':') ∈ name.map tolower := by
    rw [← hcase]
    exact List.mem_map_of_mem hmem
  obtain ⟨c, hc, hcolon⟩ := List.mem_map.mp hlower
  rw [eq_of_tolower_eq (by decide) hcolon] at hc
  exact hname hc

section Field

variable {allowed : Bytes → Bytes → Prop} {line line' : Bytes}

theorem RecasedField.map_tolower (hfield : RecasedField allowed line line') :
    line'.map tolower = line.map tolower := by
  cases hfield with
  | mk _ hcase _ => rw [List.map_append, List.map_append, hcase]

theorem RecasedField.isField (hfield : RecasedField allowed line line') :
    IsField line' := by
  cases hfield with
  | mk => exact List.mem_append_right _ List.mem_cons_self

theorem RecasedField.free (hfield : RecasedField allowed line line')
    (hfree : Free kCRLF line) : Free kCRLF line' := by
  rintro ⟨front, back, hline'⟩
  have hlower := hfield.map_tolower
  rw [← hline', List.map_append, List.map_append] at hlower
  obtain ⟨start, back', rfl, hstart, _⟩ := List.map_eq_append_iff.mp hlower.symm
  obtain ⟨front', crlf, rfl, _, hcrlf⟩ := List.map_eq_append_iff.mp hstart
  have hsame : crlf = kCRLF := by
    have hlength : crlf.length = 2 := by
      have hmap := congrArg List.length hcrlf
      rw [List.length_map, List.length_map] at hmap
      exact hmap
    obtain ⟨c, d, rfl⟩ := List.length_eq_two.mp hlength
    have hpair : tolower c = tolower 13 ∧ tolower d = tolower 10 := by
      simpa [kCRLF] using hcrlf
    rw [eq_of_tolower_eq (by decide) hpair.1, eq_of_tolower_eq (by decide) hpair.2]
    rfl
  rw [hsame] at hfree
  exact hfree ⟨front', back', rfl⟩

theorem RecasedField.length_eq (hfield : RecasedField allowed line line') :
    line'.length = line.length := by
  have hmap := congrArg List.length hfield.map_tolower
  rwa [List.length_map, List.length_map] at hmap

end Field

section Fields

variable {allowed : Bytes → Bytes → Prop} {fields fields' : List Bytes}

theorem length_frame_recased
    (hfields : List.Forall₂ (RecasedField allowed) fields fields') :
    (frame kCRLF fields').length = (frame kCRLF fields).length := by
  induction hfields with
  | nil => rfl
  | cons hfield _ ih =>
      rw [frame_cons, frame_cons, List.length_append, List.length_append,
        List.length_append, List.length_append, hfield.length_eq, ih]

theorem lines_recased
    (hfields : List.Forall₂ (RecasedField allowed) fields fields')
    (hfree : ∀ line ∈ fields, Free kCRLF line) :
    ∀ line ∈ fields', Free kCRLF line ∧ IsField line := by
  induction hfields with
  | nil => simp
  | cons hfield _ ih =>
      have hsplit := List.forall_mem_cons.mp hfree
      exact List.forall_mem_cons.mpr
        ⟨⟨hfield.free hsplit.1, hfield.isField⟩, ih hsplit.2⟩

/-- The lines of a header section stay its lines. -/
theorem closedBlock_recased {last rest : Bytes}
    (hfields : List.Forall₂ (RecasedField allowed) fields fields')
    (hfree : ∀ line ∈ fields, Free kCRLF line) (hlast : Free kCRLF last)
    (hrefused : ¬ IsField last) :
    ClosedBlock kCRLF IsField (frame kCRLF fields' ++ last ++ kCRLF ++ rest)
      fields' last rest where
  text_eq := rfl
  lines_free := fun line hmem => (lines_recased hfields hfree line hmem).1
  lines_keep := fun line hmem => (lines_recased hfields hfree line hmem).2
  last_free := hlast
  last_refused := hrefused

end Fields

/-! ## Requests on the wire -/

/-- A request line, header lines, the line without a colon that ends them, and
the bytes behind it. -/
structure WireRequest where
  line : Bytes
  fields : List Bytes
  last : Bytes
  body : Bytes
  line_free : Free kCRLF line
  fields_free : ∀ field ∈ fields, Free kCRLF field
  fields_colon : ∀ field ∈ fields, IsField field
  last_free : Free kCRLF last
  last_refused : ¬ IsField last

/-- The same for the header lines of the first part of a body. -/
inductive RecasedBody (allowed : Bytes → Bytes → Prop) : Bytes → Bytes → Prop
  | same (body : Bytes) : RecasedBody allowed body body
  | part {boundary last content : Bytes} {fields fields' : List Bytes} :
      boundary.head? = some (chr '-') → Free kCRLF boundary →
      (∀ field ∈ fields, Free kCRLF field) → (∀ field ∈ fields, IsField field) →
      Free kCRLF last → ¬ IsField last →
      List.Forall₂ (RecasedField allowed) fields fields' →
      RecasedBody allowed
        (boundary ++ kCRLF ++ (frame kCRLF fields ++ last ++ kCRLF ++ content))
        (boundary ++ kCRLF ++ (frame kCRLF fields' ++ last ++ kCRLF ++ content))

namespace WireRequest

def head (request : WireRequest) : Bytes :=
  frame kCRLF request.fields ++ request.last ++ kCRLF

def text (request : WireRequest) : Bytes :=
  request.line ++ kCRLF ++ (request.head ++ request.body)

structure Recased (allowed : Bytes → Bytes → Prop)
    (request request' : WireRequest) : Prop where
  line_eq : request'.line = request.line
  fields : List.Forall₂ (RecasedField allowed) request.fields request'.fields
  last_eq : request'.last = request.last
  body : RecasedBody allowed request.body request'.body

theorem closed (request : WireRequest) :
    ClosedBlock kCRLF IsField (request.head ++ request.body) request.fields
      request.last request.body where
  text_eq := rfl
  lines_free := request.fields_free
  lines_keep := request.fields_colon
  last_free := request.last_free
  last_refused := request.last_refused

end WireRequest

theorem RecasedBody.length_eq {allowed : Bytes → Bytes → Prop} {body body' : Bytes}
    (hbody : RecasedBody allowed body body') : body'.length = body.length := by
  cases hbody with
  | same => rfl
  | part _ _ _ _ _ _ hfields =>
      have hframe := length_frame_recased hfields
      simp only [List.length_append]
      omega

theorem RecasedBody.head?_eq {allowed : Bytes → Bytes → Prop} {body body' : Bytes}
    (hbody : RecasedBody allowed body body') : body'.head? = body.head? := by
  cases hbody with
  | same => rfl
  | part hdash =>
      simp only [List.append_assoc, List.head?_append, hdash, Option.some_or]

namespace WireRequest

variable {allowed : Bytes → Bytes → Prop} {request request' : WireRequest}

theorem Recased.length_head (hrecased : Recased allowed request request') :
    request'.head.length = request.head.length := by
  have hframe := length_frame_recased hrecased.fields
  have hlast := congrArg List.length hrecased.last_eq
  simp only [head, List.length_append]
  omega

theorem Recased.length_text (hrecased : Recased allowed request request') :
    request'.text.length = request.text.length := by
  have hhead := hrecased.length_head
  have hbody := hrecased.body.length_eq
  have hline := congrArg List.length hrecased.line_eq
  simp only [text, List.length_append]
  omega

end WireRequest

/-! ## Requests that the code treats alike -/

/-- The same request but for headers that the code does not look up. -/
inductive Alike (req : HttpRequest) : HttpRequest → Prop
  | mk (headers : Headers) :
      (∀ name ∈ lookedUp, (headers.lookup name).getD [] = req.getHeader name) →
      Alike req { req with headers_ := headers }

theorem Alike.refl (req : HttpRequest) : Alike req req :=
  .mk req.headers_ fun _ _ => rfl

section Alike

variable {req req' : HttpRequest}

theorem Alike.getHeader_eq (halike : Alike req req') {name : Bytes}
    (hname : name ∈ lookedUp) : req'.getHeader name = req.getHeader name := by
  cases halike with
  | mk headers hlookup => exact hlookup name hname

theorem Alike.contentLength_eq (halike : Alike req req') :
    req'.contentLength = req.contentLength :=
  congrArg atoi (halike.getHeader_eq (by decide))

theorem Alike.addField (halike : Alike req req') {line line' : Bytes}
    (hfield : RecasedField KeepsLookups line line') :
    Alike (addField req line) (addField req' line') := by
  cases halike with
  | mk headers hlookup =>
      cases hfield with
      | @mk name name' value hcolon hcase hkeeps =>
          have hcolon' := noColon_of_map_tolower hcase hcolon
          unfold MyFileServer.addField HttpRequest.addHeader
          rw [idxOf_append_cons hcolon, idxOf_append_cons hcolon', take_append_cons,
            take_append_cons, drop_append_cons, drop_append_cons]
          refine .mk _ fun key hkey => ?_
          unfold HttpRequest.getHeader at hlookup ⊢
          by_cases hname : key = name
          · subst hname
            have hsame : name' = key := by
              rcases hkeeps with hsame | hother
              · exact hsame
              · exact absurd hkey hother.1
            rw [hsame, Finmap.lookup_insert, Finmap.lookup_insert]
          · have hname' : key ≠ name' := by
              rcases hkeeps with hsame | hother
              · rw [hsame]
                exact hname
              · rintro rfl
                exact hother.2 hkey
            rw [Finmap.lookup_insert_of_ne _ hname, Finmap.lookup_insert_of_ne _ hname']
            exact hlookup key hkey

theorem Alike.addFields {fields fields' : List Bytes} (halike : Alike req req')
    (hfields : List.Forall₂ (RecasedField KeepsLookups) fields fields') :
    Alike (addFields req fields) (addFields req' fields') := by
  induction hfields generalizing req req' with
  | nil => exact halike
  | cons hfield _ ih => exact ih (halike.addField hfield)

theorem Alike.headerAt (halike : Alike req req') (key : Bytes) :
    Alike (req.headerAt key).2 (req'.headerAt key).2 := by
  have hget := fun name (hname : name ∈ lookedUp) =>
    (HttpRequest.getHeader_headerAt req' key name).trans
      ((halike.getHeader_eq hname).trans
        (HttpRequest.getHeader_headerAt req key name).symm)
  have hfields : (req'.headerAt key).2 =
      { (req.headerAt key).2 with headers_ := (req'.headerAt key).2.headers_ } := by
    cases halike with
    | mk headers _ =>
        unfold HttpRequest.headerAt
        split <;> split <;> rfl
  rw [hfields]
  refine .mk _ fun name hname => ?_
  exact hget name hname

end Alike

/-! ## Two buffers -/

/-- The same buffer with other readable bytes. -/
def Buffer.holding (b : Buffer) (text : Bytes) : Buffer :=
  { b with buffer_ := b.buffer_.take b.readerIndex_ ++ text ++
      b.buffer_.drop b.writerIndex_ }

structure SameLayout (b b' : Buffer) : Prop where
  reader_eq : b'.readerIndex_ = b.readerIndex_
  writer_eq : b'.writerIndex_ = b.writerIndex_
  length_eq : b'.buffer_.length = b.buffer_.length

section Holding

variable {b : Buffer} {text : Bytes}

theorem Buffer.buffer_split (hb : b.Inv) :
    b.buffer_.take b.readerIndex_ ++ b.readable ++ b.buffer_.drop b.writerIndex_ =
      b.buffer_ := by
  have htail : b.readable ++ b.buffer_.drop b.writerIndex_ =
      b.buffer_.drop b.readerIndex_ := by
    have hdrop : b.buffer_.drop b.writerIndex_ =
        (b.buffer_.drop b.readerIndex_).drop (b.writerIndex_ - b.readerIndex_) := by
      have hreader := hb.reader_le
      rw [List.drop_drop]
      congr 1
      omega
    rw [hdrop]
    exact List.take_append_drop _ _
  rw [List.append_assoc, htail]
  exact List.take_append_drop _ _

theorem sameLayout_holding (hb : b.Inv) (htext : text.length = b.readable.length) :
    SameLayout b (b.holding text) where
  reader_eq := rfl
  writer_eq := rfl
  length_eq := by
    have hsplit := congrArg List.length (buffer_split hb)
    simp only [List.length_append] at hsplit
    simp only [holding, List.length_append]
    omega

theorem Buffer.holding_inv (hb : b.Inv) (htext : text.length = b.readable.length) :
    (b.holding text).Inv := by
  have hlength := (sameLayout_holding hb htext).length_eq
  constructor
  · exact hb.reader_le
  · rw [hlength]
    exact hb.writer_le
  · rw [hlength]
    exact hb.cheap_le
  · rw [hlength]
    exact hb.length_le

theorem Buffer.readable_holding (hb : b.Inv) (htext : text.length = b.readable.length) :
    (b.holding text).readable = text := by
  have hreader : (b.buffer_.take b.readerIndex_).length = b.readerIndex_ := by
    rw [List.length_take]
    exact min_eq_left (hb.reader_le.trans hb.writer_le)
  have hwriter : b.writerIndex_ - b.readerIndex_ = text.length := by
    rw [htext, length_readable hb]
    rfl
  unfold readable Window.window holding
  simp only
  rw [List.append_assoc, List.drop_left' hreader, List.take_left' hwriter.symm]

/-- The bytes up to the first that differs. -/
theorem window_holding (hb : b.Inv) {common more more' : Bytes} (hread : b.readable = common ++ more)
    (hcommon : text = common ++ more') {i j : ℕ}
    (hj : j ≤ b.readerIndex_ + common.length) :
    Window.window (b.holding text).buffer_ i j = Window.window b.buffer_ i j := by
  have hreader : (b.buffer_.take b.readerIndex_).length = b.readerIndex_ := by
    rw [List.length_take]
    exact min_eq_left (hb.reader_le.trans hb.writer_le)
  have hfront : ∀ rest : Bytes,
      Window.window (b.buffer_.take b.readerIndex_ ++ common ++ rest) i j =
        Window.window (b.buffer_.take b.readerIndex_ ++ common) i j := by
    intro rest
    unfold Window.window
    by_cases hi : i ≤ j
    · rw [List.drop_append_of_le_length, List.take_append_of_le_length]
      · rw [List.length_drop, List.length_append]
        omega
      · rw [List.length_append]
        omega
    · rw [Nat.sub_eq_zero_of_le (by omega), List.take_zero, List.take_zero]
  have hheld : (b.holding text).buffer_ = b.buffer_.take b.readerIndex_ ++ common ++
      (more' ++ b.buffer_.drop b.writerIndex_) := by
    unfold holding
    simp only [hcommon, List.append_assoc]
  have hown : b.buffer_ = b.buffer_.take b.readerIndex_ ++ common ++
      (more ++ b.buffer_.drop b.writerIndex_) := by
    have hsplit := buffer_split hb
    rw [hread] at hsplit
    simp only [List.append_assoc] at hsplit ⊢
    exact hsplit.symm
  rw [hheld, hfront, ← hfront (more ++ b.buffer_.drop b.writerIndex_), ← hown]

end Holding

section Layout

variable {b b' : Buffer}

theorem SameLayout.readableBytes_eq (hlayout : SameLayout b b') : b'.readableBytes = b.readableBytes := by
  unfold readableBytes
  rw [hlayout.reader_eq, hlayout.writer_eq]

theorem SameLayout.limit_eq (hlayout : SameLayout b b') (region : Region) :
    b'.limit region = b.limit region := by
  cases region with
  | readable => exact hlayout.writer_eq
  | storage => exact hlayout.length_eq

theorem SameLayout.retrieve (hlayout : SameLayout b b') (n : ℕ) :
    SameLayout (b.retrieve n) (b'.retrieve n) := by
  unfold Buffer.retrieve retrieveAll
  rw [hlayout.readableBytes_eq]
  split
  · exact ⟨congrArg (· + n) hlayout.reader_eq, hlayout.writer_eq, hlayout.length_eq⟩
  · exact ⟨rfl, rfl, hlayout.length_eq⟩

/-- Whether a read stays inside does not depend on the bytes. -/
theorem SameLayout.load (hlayout : SameLayout b b') (region : Region) (i n : ℕ) :
    Related (fun _ _ => True) (b.load region i n) (b'.load region i n) := by
  unfold Buffer.load
  refine .ite ?_ fun _ => trivial
  rw [hlayout.reader_eq, hlayout.limit_eq]

theorem SameLayout.load_eq (hlayout : SameLayout b b') (region : Region) {i n : ℕ}
    (hbytes : Window.window b'.buffer_ i (i + n) = Window.window b.buffer_ i (i + n)) :
    b'.load region i n = b.load region i n := by
  unfold Buffer.load
  rw [hlayout.reader_eq, hlayout.limit_eq, hbytes]

end Layout

/-! ## The body of a POST -/

section Body

variable {region : Region} {req req' : HttpRequest} {b b' : Buffer}

theorem addcontent_related (region : Region) (halike : Alike req req') (hb : b.Inv) (hb' : b'.Inv)
    (hlayout : SameLayout b b') (hread : b'.readable = b.readable)
    (hlength : req.contentLength ≤ b.readable.length) :
    Related Alike (req.addcontent region b b.peek)
      (req'.addcontent region b' b'.peek) := by
  have hpeek : b'.peek = b.peek := hlayout.reader_eq
  have hlen : atoi (req.headerAt (ascii "Content-Length")).1 = req.contentLength := by
    rw [HttpRequest.headerAt_fst]
    rfl
  have hlen' : atoi (req'.headerAt (ascii "Content-Length")).1 = req.contentLength := by
    rw [HttpRequest.headerAt_fst]
    exact halike.contentLength_eq
  have hinner := halike.headerAt (ascii "Content-Length")
  unfold HttpRequest.addcontent
  simp only [hlen, hlen', hpeek]
  generalize (req.headerAt (ascii "Content-Length")).2 = inner at hinner ⊢
  generalize (req'.headerAt (ascii "Content-Length")).2 = inner' at hinner ⊢
  refine (hlayout.load region _ _).bind fun _ _ _ => ?_
  refine (hlayout.load region _ _).bind fun _ _ _ => ?_
  refine (hlayout.load region _ _).bind fun _ _ _ => ?_
  by_cases hneg : req.contentLength < 0
  · rw [if_pos hneg, if_pos hneg]
    exact .fault _
  · rw [if_neg hneg, if_neg hneg]
    have htake : (b.readable.take req.contentLength.toNat).length =
        req.contentLength.toNat := by
      rw [List.length_take]
      omega
    have hcut := (List.take_append_drop req.contentLength.toNat b.readable).symm
    have hload := load_line hb region hcut
    have hload' := load_line hb' region (hread.trans hcut)
    rw [htake] at hload hload'
    rw [hpeek] at hload'
    rw [hload, hload']
    cases hinner with
    | mk headers hlookup => exact .value (.mk headers hlookup)

/-- The content that the header announces is among the bytes behind the header
section. -/
structure BodyArrived (req : HttpRequest) (body : Bytes) : Prop where
  plain : body.head? ≠ some (chr '-') → req.contentLength ≤ body.length
  part : ∀ boundary more fields last content,
    boundary.head? = some (chr '-') → Free kCRLF boundary →
    body = boundary ++ kCRLF ++ more →
    ClosedBlock kCRLF IsField more fields last content →
    (addFields req fields).contentLength ≤ content.length

/-- The body branch behind the boundary line. -/
def parsePart (region : Region) (req : HttpRequest) (buf : Buffer) :
    Exec (HttpRequest × Buffer) := do
  let _ ← buf.load region buf.peek 1
  let (req, buf) ← partHeaders region (buf.readableBytes + 1) req buf
  let _ ← buf.load region buf.peek 1
  let req ← req.addcontent region buf buf.peek
  return (req, buf)

theorem parsePart_related (halike : Alike req req') (hb : b.Inv) (hb' : b'.Inv)
    (hlayout : SameLayout b b') {fields fields' : List Bytes} {last content : Bytes}
    (hfields : List.Forall₂ (RecasedField KeepsLookups) fields fields')
    (hclosed : ClosedBlock kCRLF IsField b.readable fields last content)
    (hclosed' : ClosedBlock kCRLF IsField b'.readable fields' last content)
    (hlength : (addFields req fields).contentLength ≤ content.length) :
    Related (fun r r' => Alike r.1 r'.1) (parsePart region req b)
      (parsePart region req' b') := by
  have hbytes := length_readable hb
  have hbytes' := length_readable hb'
  have hsame := hlayout.readableBytes_eq
  have hshort := length_closed_le hclosed
  have hcount := hfields.length_eq
  obtain ⟨fuel, hfuel⟩ : ∃ fuel, b.readableBytes + 1 = fuel + 1 + fields.length :=
    ⟨b.readableBytes - fields.length, by omega⟩
  have hfuel' : b'.readableBytes + 1 = fuel + 1 + fields'.length := by omega
  have hpeek : b'.peek = b.peek := hlayout.reader_eq
  unfold parsePart
  rw [hpeek]
  refine (hlayout.load region _ _).bind fun _ _ _ => ?_
  rw [hfuel, hfuel', partHeaders_closed hb hclosed, partHeaders_closed hb' hclosed']
  have hcut : b'.readable.length - content.length =
      b.readable.length - content.length := by omega
  rw [hcut]
  have hrest := readable_retrieve_suffix hb hclosed.suffix
  have hrest' := readable_retrieve_suffix hb' hclosed'.suffix
  rw [hcut] at hrest'
  have hafter := hlayout.retrieve (b.readable.length - content.length)
  have hinv := retrieve_inv hb (b.readable.length - content.length)
  have hinv' := retrieve_inv hb' (b.readable.length - content.length)
  generalize b.retrieve (b.readable.length - content.length) = c at *
  generalize b'.retrieve (b.readable.length - content.length) = c' at *
  have hpeek : c'.peek = c.peek := hafter.reader_eq
  change Related _
    (c.load region c.peek 1 >>= fun _ =>
      (addFields req fields).addcontent region c c.peek >>= fun req => pure (req, c))
    (c'.load region c'.peek 1 >>= fun _ =>
      (addFields req' fields').addcontent region c' c'.peek >>= fun req =>
        pure (req, c'))
  have hcontent := addcontent_related region (halike.addFields hfields)
    hinv hinv' hafter (hrest'.trans hrest.symm) (by rwa [hrest])
  rw [hpeek] at hcontent ⊢
  refine (hafter.load region _ _).bind fun _ _ _ => ?_
  exact hcontent.bind fun _ _ hreq => .value hreq

theorem parsePart_open (hb : b.Inv) {fields : List Bytes} {tail : Bytes}
    (hopen : OpenBlock kCRLF IsField b.readable fields tail) :
    parsePart region req b =
      b.load region b.peek 1 >>= fun _ => .error .nullPointer := by
  have hbytes := length_readable hb
  have hshort := length_fields_le hopen.text_eq
  obtain ⟨fuel, hfuel⟩ : ∃ fuel, b.readableBytes + 1 = fuel + 1 + fields.length :=
    ⟨b.readableBytes - fields.length, by omega⟩
  unfold parsePart
  rw [hfuel, partHeaders_open hb hopen]
  rfl

theorem recasedField_refl {allowed : Bytes → Bytes → Prop}
    (hallowed : ∀ name, allowed name name) {line : Bytes} (hline : IsField line) :
    RecasedField allowed line line := by
  obtain ⟨name, value, rfl, hname⟩ := List.eq_append_cons_of_mem hline
  exact .mk hname rfl (hallowed name)

theorem parseBody_dash {buf : Buffer} (hb : buf.Inv)
    (hfirst : buf.load region buf.peek 1 = .ok [chr '-']) {boundary more : Bytes}
    (hread : buf.readable = boundary ++ kCRLF ++ more)
    (hboundary : Free kCRLF boundary) :
    parseBody region req buf =
      parsePart region req (buf.retrieve (boundary ++ kCRLF).length) :=
  parseBody_boundary hb hfirst hread hboundary

/-- Both bodies start with a boundary, and the header lines of the part end. -/
theorem parseBody_part_related (halike : Alike req req') (hb : b.Inv) (hb' : b'.Inv)
    (hlayout : SameLayout b b')
    (hfirst : b.load region b.peek 1 = .ok [chr '-'])
    (hfirst' : b'.load region b'.peek 1 = .ok [chr '-'])
    {boundary more more' last content : Bytes} {fields fields' : List Bytes}
    (hread : b.readable = boundary ++ kCRLF ++ more)
    (hread' : b'.readable = boundary ++ kCRLF ++ more')
    (hboundary : Free kCRLF boundary)
    (hfields : List.Forall₂ (RecasedField KeepsLookups) fields fields')
    (hclosed : ClosedBlock kCRLF IsField more fields last content)
    (hclosed' : ClosedBlock kCRLF IsField more' fields' last content)
    (hlength : (addFields req fields).contentLength ≤ content.length) :
    Related (fun r r' => Alike r.1 r'.1) (parseBody region req b)
      (parseBody region req' b') := by
  rw [parseBody_dash hb hfirst hread hboundary,
    parseBody_dash hb' hfirst' hread' hboundary]
  have hmore := readable_after_line hb hread
  have hmore' := readable_after_line hb' hread'
  rw [← hmore] at hclosed
  rw [← hmore'] at hclosed'
  exact parsePart_related halike (retrieve_inv hb _) (retrieve_inv hb' _)
    (hlayout.retrieve _) hfields hclosed hclosed' hlength

theorem head?_of_load (hb : b.Inv) {c : UInt8}
    (hload : b.load region b.peek 1 = .ok [c]) (hread : b.readable ≠ []) :
    b.readable.head? = some c := by
  cases hhead : b.readable.head? with
  | none => exact absurd (List.head?_eq_none_iff.mp hhead) hread
  | some d =>
      have hfirst := load_first hb region hhead
      rw [hload] at hfirst
      cases hfirst
      rfl

theorem length_of_load (hb : b.Inv) {i n : ℕ} {text : Bytes}
    (hload : b.load region i n = .ok text) : text.length = n := by
  obtain ⟨_, hfit, rfl⟩ := load_eq_ok.mp hload
  have hlimit := limit_le hb region
  rw [Window.length_window (hfit.trans hlimit), Nat.add_sub_cancel_left]

/-- Both bodies are the same. -/
theorem parseBody_same_related (halike : Alike req req') (hb : b.Inv) (hb' : b'.Inv)
    (hlayout : SameLayout b b')
    (hfirst : b.load region b.peek 1 = .ok [chr '-'])
    (hfirst' : b'.load region b'.peek 1 = .ok [chr '-'])
    (hread : b'.readable = b.readable) (harrived : BodyArrived req b.readable) :
    Related (fun r r' => Alike r.1 r'.1) (parseBody region req b)
      (parseBody region req' b') := by
  rcases free_or_line kCRLF_ne_nil b.readable with
    hfree | ⟨boundary, more, hline, hboundary⟩
  · have hfree' := hfree
    rw [← hread] at hfree'
    rw [parseBody_unfinished hb hfirst hfree, parseBody_unfinished hb' hfirst' hfree']
    exact .fault _
  have hline' := hread.trans hline
  rcases fields_open_or_closed more with
    ⟨fields, tail, hopen⟩ | ⟨fields, last, content, hclosed⟩
  · rw [parseBody_dash hb hfirst hline hboundary,
      parseBody_dash hb' hfirst' hline' hboundary]
    have hopen' := hopen
    rw [← readable_after_line hb hline] at hopen
    rw [← readable_after_line hb' hline'] at hopen'
    rw [parsePart_open (retrieve_inv hb _) hopen,
      parsePart_open (retrieve_inv hb' _) hopen']
    have hafter := hlayout.retrieve (boundary ++ kCRLF).length
    have hpeek : (b'.retrieve (boundary ++ kCRLF).length).peek =
        (b.retrieve (boundary ++ kCRLF).length).peek := hafter.reader_eq
    rw [hpeek]
    exact (hafter.load region _ _).bind fun _ _ _ => .fault _
  · have hdash : boundary.head? = some (chr '-') := by
      have hhead := head?_of_load hb hfirst (by rw [hline]; simp [kCRLF])
      rw [hline] at hhead
      cases boundary with
      | nil =>
          have hreturn : some 13 = some (chr '-') := hhead
          exact absurd hreturn (by decide)
      | cons c boundary => exact hhead
    exact parseBody_part_related halike hb hb' hlayout hfirst hfirst' hline hline'
      hboundary
      (List.forall₂_same.mpr fun field hmem =>
        recasedField_refl (fun _ => .inl rfl) (hclosed.lines_keep field hmem))
      hclosed hclosed (harrived.part _ _ _ _ _ hdash hboundary hline hclosed)

theorem parseBody_related (halike : Alike req req') (hb : b.Inv) (hb' : b'.Inv)
    (hlayout : SameLayout b b')
    (hfirst : b'.load region b'.peek 1 = b.load region b.peek 1)
    (hbody : RecasedBody KeepsLookups b.readable b'.readable)
    (harrived : BodyArrived req b.readable) :
    Related (fun r r' => Alike r.1 r'.1) (parseBody region req b)
      (parseBody region req' b') := by
  cases hload : b.load region b.peek 1 with
  | error fault =>
      have hload' := hfirst.trans hload
      unfold parseBody
      rw [hload, hload']
      exact .fault fault
  | ok first =>
      obtain ⟨c, rfl⟩ := List.length_eq_one_iff.mp (length_of_load hb hload)
      have hload' := hfirst.trans hload
      generalize hread : b.readable = body at hbody harrived
      generalize hread' : b'.readable = body' at hbody
      by_cases hdash : c = chr '-'
      · subst hdash
        cases hbody with
        | same =>
            rw [← hread] at harrived
            exact parseBody_same_related halike hb hb' hlayout hload hload'
              (hread'.trans hread.symm) harrived
        | @part boundary last content fields fields' hhead hboundary hfree hfield hlast
            hrefused hfields =>
            have hclosed : ClosedBlock kCRLF IsField
                (frame kCRLF fields ++ last ++ kCRLF ++ content) fields last content :=
              ⟨rfl, hfree, hfield, hlast, hrefused⟩
            exact parseBody_part_related halike hb hb' hlayout hload hload' hread hread'
              hboundary hfields hclosed
              (closedBlock_recased hfields hfree hlast hrefused)
              (harrived.part _ _ _ _ _ hhead hboundary rfl hclosed)
      · rw [parseBody_plain hload hdash, parseBody_plain hload' hdash]
        have hplain : body.head? ≠ some (chr '-') := by
          intro hhead
          rw [← hread] at hhead
          have hdashed := load_first hb region hhead
          rw [hload] at hdashed
          cases hdashed
          exact hdash rfl
        have hsame : body' = body := by
          cases hbody with
          | same => rfl
          | part hhead =>
              refine absurd ?_ hplain
              simp only [List.append_assoc, List.head?_append, hhead, Option.some_or]
        have hlength := harrived.plain hplain
        rw [← hread] at hlength
        exact (addcontent_related region halike hb hb' hlayout
          (hread'.trans (hsame.trans hread.symm)) hlength).map fun _ _ hreq => hreq

end Body

/-! ## One call of the parser -/

/-- The content of the request is in the buffer when the parser gets to it. -/
def WireRequest.Arrived (request : WireRequest) (req : HttpRequest) (t : Timestamp) :
    Prop :=
  ((processRequestLine req request.line).2).method_ = .kPost →
    BodyArrived (addFields ((processRequestLine req request.line).2.setReceiveTime t)
      request.fields) request.body

theorem requestLine_length {req req' : HttpRequest} {line : Bytes}
    (haccept : processRequestLine req line = (true, req')) : 8 < line.length := by
  obtain ⟨parsed, rfl, _⟩ := exists_requestLine_of_accepted haccept
  have hversion : parsed.version.text.length = 8 := by
    have hvalid := parsed.version_valid
    cases hcase : parsed.version with
    | kUnknown => exact absurd hcase hvalid
    | kHttp10 => rfl
    | kHttp11 => rfl
  simp only [RequestLine.text, List.length_append, List.length_cons]
  omega

section Parser

variable {region : Region} {req : HttpRequest} {t : Timestamp} {buf : Buffer}
  {request request' : WireRequest}

/-- The byte that the body branch looks at first, also when the buffer has
been emptied and it is an old one. -/
theorem load_first_holding (region : Region) (hbuf : buf.Inv) (hread : buf.readable = request.text)
    (hrecased : request.Recased KeepsLookups request')
    (hline : 8 < request.line.length) :
    ((buf.holding request'.text).retrieve
          (buf.readable.length - request.body.length)).load region
        ((buf.holding request'.text).retrieve
          (buf.readable.length - request.body.length)).peek 1 =
      (buf.retrieve (buf.readable.length - request.body.length)).load region
        (buf.retrieve (buf.readable.length - request.body.length)).peek 1 := by
  have hlength : request'.text.length = buf.readable.length := by
    rw [hread]
    exact hrecased.length_text
  have hbuf' := holding_inv hbuf hlength
  have hlayout := sameLayout_holding hbuf hlength
  have hread' := readable_holding hbuf hlength
  have hbytes := length_readable hbuf
  cases hbody : request.body with
  | nil =>
      have hall : ∀ b : Buffer, b.readableBytes = buf.readableBytes →
          b.retrieve (buf.readable.length - ([] : Bytes).length) = b.retrieveAll := by
        intro b hb
        unfold retrieve
        rw [if_neg]
        rw [List.length_nil, hb]
        omega
      rw [hall _ hlayout.readableBytes_eq, hall _ rfl]
      have hsplit : buf.readable = request.line ++ kCRLF ++ (request.head ++ request.body) :=
        hread
      have hsplit' : request'.text = request.line ++ kCRLF ++
          (request'.head ++ request'.body) := by
        unfold WireRequest.text
        rw [hrecased.line_eq]
      have hold : Window.window (buf.holding request'.text).buffer_ kCheapPrepend
          (kCheapPrepend + 1) = Window.window buf.buffer_ kCheapPrepend
          (kCheapPrepend + 1) := by
        refine window_holding hbuf hsplit hsplit' ?_
        rw [List.length_append]
        unfold kCheapPrepend
        omega
      have hempty : SameLayout buf.retrieveAll (buf.holding request'.text).retrieveAll :=
        ⟨rfl, rfl, hlayout.length_eq⟩
      exact hempty.load_eq region hold
  | cons c rest =>
      have hhead : (buf.retrieve (buf.readable.length - request.body.length)).readable =
          request.body := by
        refine readable_retrieve_suffix hbuf ?_
        rw [hread]
        exact request.closed.suffix.trans (List.suffix_append _ _)
      have hhead' : ((buf.holding request'.text).retrieve
          (buf.readable.length - request.body.length)).readable = request'.body := by
        have hsuffix : request'.body <:+ (buf.holding request'.text).readable := by
          rw [hread']
          exact request'.closed.suffix.trans (List.suffix_append _ _)
        have hrest := readable_retrieve_suffix hbuf' hsuffix
        rwa [hread', hlength, hrecased.body.length_eq] at hrest
      have hfirst : request.body.head? = some c := by rw [hbody]; rfl
      rw [← hbody]
      rw [load_first (retrieve_inv hbuf _) region (by rw [hhead, hfirst]),
        load_first (retrieve_inv hbuf' _) region
          (by rw [hhead', hrecased.body.head?_eq, hfirst])]

theorem parseRequest_related (hbuf : buf.Inv) (hread : buf.readable = request.text)
    (hrecased : request.Recased KeepsLookups request')
    (harrived : request.Arrived req t) :
    Related
      (fun parsed parsed' => parsed'.ok = parsed.ok ∧
        parsed'.context.state_ = parsed.context.state_ ∧
        Alike parsed.context.request_ parsed'.context.request_)
      (parseRequest region ⟨.kExpectRequestLine, req⟩ buf t)
      (parseRequest region ⟨.kExpectRequestLine, req⟩ (buf.holding request'.text) t) := by
  have hlength : request'.text.length = buf.readable.length := by
    rw [hread]
    exact hrecased.length_text
  have hbuf' := holding_inv hbuf hlength
  have hread' := readable_holding hbuf hlength
  have hlayout := sameLayout_holding hbuf hlength
  have hline := hrecased.line_eq
  cases haccept : processRequestLine req request.line with
  | mk ok req' =>
      have haccept' : processRequestLine req request'.line = (ok, req') := by
        rw [hline]
        exact haccept
      cases ok with
      | false =>
          have hwaits : HeadWaits t ⟨.kExpectRequestLine, req⟩ request.text false
              ⟨.kExpectRequestLine, req'⟩ request.text :=
            .refused request.line_free haccept
          have hwaits' : HeadWaits t ⟨.kExpectRequestLine, req⟩ request'.text false
              ⟨.kExpectRequestLine, req'⟩ request'.text :=
            .refused request'.line_free haccept'
          rw [← hread] at hwaits
          rw [← hread'] at hwaits'
          obtain ⟨_, hparse, _⟩ := parseRequest_of_headWaits region hbuf hwaits
          obtain ⟨_, hparse', _⟩ := parseRequest_of_headWaits region hbuf' hwaits'
          rw [hparse, hparse']
          exact .value ⟨rfl, rfl, .refl _⟩
      | true =>
          have hends : HeadEnds t ⟨.kExpectRequestLine, req⟩ request.text true
              (addFields (req'.setReceiveTime t) request.fields) request.body :=
            .accepted request.line_free haccept request.closed
          have hends' : HeadEnds t ⟨.kExpectRequestLine, req⟩ request'.text true
              (addFields (req'.setReceiveTime t) request'.fields) request'.body :=
            .accepted request'.line_free haccept' request'.closed
          rw [← hread] at hends
          rw [← hread'] at hends'
          have halike := (Alike.refl (req'.setReceiveTime t)).addFields hrecased.fields
          have hcut : (buf.holding request'.text).readable.length - request'.body.length =
              buf.readable.length - request.body.length := by
            rw [hread', hlength, hrecased.body.length_eq]
          have hfirst := load_first_holding region hbuf hread hrecased
            (requestLine_length haccept)
          have hrest := readable_retrieve_suffix hbuf hends.suffix
          have hrest' := readable_retrieve_suffix hbuf' hends'.suffix
          rw [parseRequest_of_headEnds region hbuf hends,
            parseRequest_of_headEnds region hbuf' hends']
          rw [hcut] at hrest' ⊢
          unfold finishRequest
          refine Related.map (R := fun r r' => Alike r.1 r'.1) ?_ fun _ _ hreq =>
            ⟨rfl, rfl, hreq⟩
          have hmethod := congrArg HttpRequest.method_
            (addFields_eq (req'.setReceiveTime t) request.fields)
          have hmethod' := congrArg HttpRequest.method_
            (addFields_eq (req'.setReceiveTime t) request'.fields)
          unfold expectBody
          rw [hmethod, hmethod']
          split
          next hpost =>
            unfold WireRequest.Arrived at harrived
            rw [haccept] at harrived
            refine parseBody_related halike (retrieve_inv hbuf _) (retrieve_inv hbuf' _)
              (hlayout.retrieve _) hfirst ?_ ?_
            · rw [hrest, hrest']
              exact hrecased.body
            · rw [hrest]
              exact harrived hpost
          next => exact .value halike

end Parser

/-! ## The handler -/

section Handler

variable {env : Environment} {server : FileServer} {req req' : HttpRequest}

theorem Alike.path_eq (halike : Alike req req') : req'.path_ = req.path_ := by
  cases halike with
  | mk => rfl

theorem Alike.m_string_eq (halike : Alike req req') : req'.m_string = req.m_string := by
  cases halike with
  | mk => rfl

theorem Alike.wantsClose_eq (halike : Alike req req') :
    req'.wantsClose = req.wantsClose := by
  have hversion : req'.version_ = req.version_ := by
    cases halike with
    | mk => rfl
  unfold HttpRequest.wantsClose
  rw [halike.getHeader_eq (by decide), hversion]

theorem Alike.uploadName_eq (halike : Alike req req') :
    uploadName req' = uploadName req := by
  unfold uploadName
  rw [halike.getHeader_eq (by decide)]

theorem Alike.uploadDir_eq (halike : Alike req req') (path : Bytes) :
    uploadDir path req' = uploadDir path req := by
  unfold uploadDir
  rw [halike.getHeader_eq (by decide), halike.path_eq]

theorem Alike.describeFile_eq (halike : Alike req req') (fd : ℤ) (res : HttpResponse) :
    describeFile fd req' res = describeFile fd req res := by
  unfold describeFile
  rw [halike.path_eq]

theorem Alike.sendExisting_eq (halike : Alike req req') (path : Bytes)
    (buffer : FileStatus) (res : HttpResponse) :
    sendExisting env req' path buffer res = sendExisting env req path buffer res := by
  unfold sendExisting sendDirectory sendRegular
  simp only [halike.path_eq, halike.describeFile_eq,
    halike.getHeader_eq (show ascii "Range" ∈ lookedUp by decide)]

theorem Alike.takeRoute_eq (halike : Alike req req') (path : Bytes) (res : HttpResponse)
    (route : Route) :
    takeRoute env server req' path res route = takeRoute env server req path res route := by
  unfold takeRoute download upload delete
  simp only [halike.path_eq, halike.m_string_eq, halike.describeFile_eq,
    halike.uploadDir_eq, halike.uploadName_eq]

theorem Alike.buildResponse_eq (halike : Alike req req') :
    buildResponse env server req' = buildResponse env server req := by
  unfold buildResponse setResponseBody
  simp only [halike.path_eq, halike.wantsClose_eq, halike.sendExisting_eq,
    halike.takeRoute_eq]

theorem Alike.onRequest_eq (halike : Alike req req')
    (order : (headers : Headers) → Traversal headers) :
    onRequest env order server req' = onRequest env order server req := by
  unfold onRequest
  rw [halike.buildResponse_eq]

end Handler

/-- The handler treats the requests in the same way. -/
structure BehavesAlike (req req' : HttpRequest) : Prop where
  close : req'.wantsClose = req.wantsClose
  range : req'.getHeader (ascii "Range") = req.getHeader (ascii "Range")
  bodyLength : req'.m_string.length = req.m_string.length
  fileName : uploadName req' = uploadName req
  handled : ∀ env order server,
    onRequest env order server req' = onRequest env order server req

theorem Alike.behavesAlike {req req' : HttpRequest} (halike : Alike req req') :
    BehavesAlike req req' where
  close := halike.wantsClose_eq
  range := halike.getHeader_eq (by decide)
  bodyLength := congrArg List.length halike.m_string_eq
  fileName := halike.uploadName_eq
  handled := fun _ order _ => halike.onRequest_eq order

/-- `parseRequest` ends in the same way on both, with requests that the handler
treats in the same way. -/
def SameParse (outcome outcome' : Exec Parsed) : Prop :=
  Related
    (fun parsed parsed' => parsed'.ok = parsed.ok ∧
      parsed'.context.state_ = parsed.context.state_ ∧
      BehavesAlike parsed.context.request_ parsed'.context.request_)
    outcome outcome'

/-- A change of case in names that the code does not look up changes nothing. -/
theorem parseRequest_of_recased (region : Region) {req : HttpRequest} {t : Timestamp}
    {buf : Buffer} {request request' : WireRequest} (hbuf : buf.Inv)
    (hread : buf.readable = request.text)
    (hrecased : request.Recased KeepsLookups request')
    (harrived : request.Arrived req t) :
    SameParse (parseRequest region ⟨.kExpectRequestLine, req⟩ buf t)
      (parseRequest region ⟨.kExpectRequestLine, req⟩ (buf.holding request'.text) t) :=
  (parseRequest_related hbuf hread hrecased harrived).mono fun _ _ hsame =>
    ⟨hsame.1, hsame.2.1, hsame.2.2.behavesAlike⟩

/-- A request with one header line. -/
def oneField (field : Bytes) (hfield : NoBreak field) (hcolon : IsField field) :
    WireRequest where
  line := ascii "GET / HTTP/1.1"
  fields := [field]
  last := []
  body := []
  line_free := NoBreak.free (by decide)
  fields_free := by simpa using hfield.free
  fields_colon := by simpa using hcolon
  last_free := free_nil kCRLF_ne_nil
  last_refused := by decide

theorem oneField_arrived {field : Bytes} (hfield : NoBreak field)
    (hcolon : IsField field) (req : HttpRequest) (t : Timestamp) :
    (oneField field hfield hcolon).Arrived req t := by
  intro hpost
  have hget : (processRequestLine req (ascii "GET / HTTP/1.1")).2.method_ = .kGet := by
    rfl
  rw [show (oneField field hfield hcolon).line = ascii "GET / HTTP/1.1" from rfl, hget]
    at hpost
  cases hpost

theorem recasedField_of_split {allowed : Bytes → Bytes → Prop} {line line' : Bytes}
    (name name' value : Bytes) (hline : line = name ++ chr ':' :: value)
    (hline' : line' = name' ++ chr ':' :: value) (hname : chr ':' ∉ name)
    (hcase : name'.map tolower = name.map tolower) (hallowed : allowed name name') :
    RecasedField allowed line line' := by
  subst hline hline'
  exact .mk hname hcase hallowed

theorem oneField_recased {allowed : Bytes → Bytes → Prop} {field field' : Bytes}
    (hfield : NoBreak field) (hcolon : IsField field) (hfield' : NoBreak field')
    (hcolon' : IsField field') (hrecased : RecasedField allowed field field') :
    (oneField field hfield hcolon).Recased allowed (oneField field' hfield' hcolon') where
  line_eq := rfl
  fields := .cons hrecased .nil
  last_eq := rfl
  body := .same _

theorem oneField_inv {field : Bytes} (hfield : NoBreak field) (hcolon : IsField field)
    (hshort : field.length < 100) :
    (ofReadable (oneField field hfield hcolon).text).Inv := by
  refine ofReadable_inv (lt_maxSize ?_).le
  have hline : (ascii "GET / HTTP/1.1").length = 14 := by decide
  simp only [oneField, WireRequest.text, WireRequest.head, frame_cons, frame_nil,
    List.length_append, List.length_nil, hline, kCheapPrepend, kCRLF, List.length_cons]
  omega

theorem parseRequest_of_recased_accept :
    SameParse
      (parseRequest .storage ⟨.kExpectRequestLine, {}⟩
        (ofReadable (oneField (ascii "Accept: a") (by decide) (by decide)).text) {})
      (parseRequest .storage ⟨.kExpectRequestLine, {}⟩
        ((ofReadable (oneField (ascii "Accept: a") (by decide) (by decide)).text).holding
          (oneField (ascii "accept: a") (by decide) (by decide)).text) {}) :=
  parseRequest_of_recased .storage (oneField_inv _ _ (by decide)) (ofReadable_readable _)
    (oneField_recased _ _ _ _ (recasedField_of_split (ascii "Accept") (ascii "accept")
      (ascii " a") (by decide) (by decide) (by decide) (by decide) (.inr (by decide))))
    (oneField_arrived _ _ _ _)

theorem SameParse.wantsClose_eq {outcome outcome' : Exec Parsed}
    (hsame : SameParse outcome outcome') :
    outcome'.map (fun parsed => parsed.context.request_.wantsClose) =
      outcome.map fun parsed => parsed.context.request_.wantsClose := by
  cases hsame with
  | fault fault => rfl
  | value hvalue => exact congrArg Except.ok hvalue.2.2.close

/-- `Connection: close` in small letters does not close the connection. -/
theorem connection_spelling :
    ¬ ∀ (req : HttpRequest) (t : Timestamp) (buf : Buffer)
        (request request' : WireRequest),
      buf.Inv → buf.readable = request.text → request.Recased AnyCase request' →
      request.Arrived req t →
      SameParse (parseRequest .storage ⟨.kExpectRequestLine, req⟩ buf t)
        (parseRequest .storage ⟨.kExpectRequestLine, req⟩
          (buf.holding request'.text) t) := by
  intro hclaim
  have hnames : RecasedField AnyCase (ascii "Connection: close")
      (ascii "connection: close") :=
    recasedField_of_split (ascii "Connection") (ascii "connection") (ascii " close")
      (by decide) (by decide) (by decide) (by decide) trivial
  have hsame := hclaim {} {} _ _ _
    (oneField_inv (by decide) (by decide) (by decide)) (ofReadable_readable _)
    (oneField_recased (by decide) (by decide) (by decide) (by decide) hnames)
    (oneField_arrived (by decide) (by decide) _ _)
  exact absurd hsame.wantsClose_eq (by decide +kernel)

end MyFileServer
