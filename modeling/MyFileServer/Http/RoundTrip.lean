import MyFileServer.Http.RequestHead

/-!
# The parser undoes rendering

A `BodilessRequest` is a request as a client writes it: a request line, and
header fields with white space around their values.  `render` is its text, and
the parser gets every part of it back.
-/

namespace MyFileServer

open Execution Delimiter Buffer

def NoBreak (text : Bytes) : Prop :=
  chr '\r' ∉ text ∧ chr '\n' ∉ text

instance (text : Bytes) : Decidable (NoBreak text) :=
  inferInstanceAs (Decidable (_ ∧ _))

theorem NoBreak.free {text : Bytes} (htext : NoBreak text) : Free kCRLF text :=
  free_of_notMem (by decide) htext.1

theorem noBreak_append {text₁ text₂ : Bytes} :
    NoBreak (text₁ ++ text₂) ↔ NoBreak text₁ ∧ NoBreak text₂ := by
  simp only [NoBreak, List.mem_append]
  tauto

theorem noBreak_cons {c : UInt8} {text : Bytes} :
    NoBreak (c :: text) ↔ (c ≠ chr '\r' ∧ c ≠ chr '\n') ∧ NoBreak text := by
  simp only [NoBreak, List.mem_cons, ne_eq]
  tauto

structure WireField where
  name : Bytes
  before : Bytes
  value : Bytes
  after : Bytes
  name_noColon : chr ':' ∉ name
  name_noBreak : NoBreak name
  before_space : ∀ c ∈ before, isspace c
  before_noBreak : NoBreak before
  value_noBreak : NoBreak value
  value_first : ∀ c ∈ value.head?, isspace c = false
  value_last : ∀ c ∈ value.getLast?, isspace c = false
  after_space : ∀ c ∈ after, isspace c
  after_noBreak : NoBreak after

namespace WireField

def line (field : WireField) : Bytes :=
  field.name ++ chr ':' :: (field.before ++ (field.value ++ field.after))

theorem line_noBreak (field : WireField) : NoBreak field.line := by
  unfold line
  simp only [noBreak_append, noBreak_cons]
  exact ⟨field.name_noBreak, by decide, field.before_noBreak,
    field.value_noBreak, field.after_noBreak⟩

theorem line_isField (field : WireField) : IsField field.line := by
  simp [IsField, line]

theorem rdropWhile_value (field : WireField) :
    (field.value ++ field.after).rdropWhile isspace = field.value := by
  have hafter : (field.value ++ field.after).rdropWhile isspace =
      field.value.rdropWhile isspace := by
    unfold List.rdropWhile
    rw [List.reverse_append, List.dropWhile_append_of_pos]
    intro c hc
    exact field.after_space c (List.mem_reverse.mp hc)
  rw [hafter, List.rdropWhile_eq_self_iff]
  intro hne
  have hlast := field.value_last _ (List.getLast_mem_getLast? hne)
  simp [hlast]

theorem trim_value (field : WireField) :
    HttpRequest.trim (field.before ++ (field.value ++ field.after)) =
      field.value := by
  unfold HttpRequest.trim
  rw [List.dropWhile_append_of_pos field.before_space]
  cases hvalue : field.value with
  | nil =>
      have hafter : field.after.dropWhile isspace = [] :=
        List.dropWhile_eq_nil_iff.mpr field.after_space
      rw [List.nil_append, hafter]
      rfl
  | cons c value =>
      have hc : isspace c = false := field.value_first c (by simp [hvalue])
      have hkeep : (c :: value ++ field.after).dropWhile isspace =
          c :: value ++ field.after := by
        simp [hc]
      rw [hkeep, ← hvalue, field.rdropWhile_value]

theorem addField_line (field : WireField) (req : HttpRequest) :
    addField req field.line =
      { req with headers_ := req.headers_.insert field.name field.value } := by
  unfold addField HttpRequest.addHeader line
  rw [idxOf_append_cons field.name_noColon, take_append_cons, drop_append_cons,
    field.trim_value]

/-- The value that a reader of the header section finds under a name. -/
def lastValue (fields : List WireField) (name : Bytes) : Option Bytes :=
  (fields.reverse.find? (fun field => field.name = name)).map (·.value)

theorem lookup_addFields (fields : List WireField) (req : HttpRequest)
    (name : Bytes) :
    (addFields req (fields.map line)).headers_.lookup name =
      (lastValue fields name).or (req.headers_.lookup name) := by
  induction fields using List.reverseRecOn with
  | nil => rfl
  | append_singleton fields field ih =>
      rw [List.map_append, addFields_append]
      change (addField (addFields req (fields.map line)) field.line).headers_.lookup
        name = _
      rw [field.addField_line]
      unfold lastValue at ih ⊢
      rw [List.reverse_append, List.reverse_singleton, List.singleton_append]
      by_cases hname : field.name = name
      · subst hname
        rw [Finmap.lookup_insert, List.find?_cons_of_pos (by simp)]
        rfl
      · rw [Finmap.lookup_insert_of_ne _ (Ne.symm hname), ih,
          List.find?_cons_of_neg (by simpa using hname)]

end WireField

structure BodilessRequest where
  method : Method
  path : Bytes
  query : Bytes
  version : Version
  headers : List WireField
  method_valid : method ≠ .kInvalid
  method_bodiless : method ≠ .kPost
  path_noBlank : chr ' ' ∉ path
  path_noQuery : chr '?' ∉ path
  path_noBreak : NoBreak path
  query_noBlank : chr ' ' ∉ query
  query_noBreak : NoBreak query
  query_mark : query = [] ∨ query.head? = some (chr '?')
  version_valid : version ≠ .kUnknown

namespace BodilessRequest

def render (request : BodilessRequest) : Bytes :=
  request.method.token ++ chr ' ' :: (request.path ++ request.query) ++
    chr ' ' :: request.version.text ++ kCRLF ++
    request.headers.flatMap (fun field => field.line ++ kCRLF) ++ kCRLF

def line (request : BodilessRequest) : RequestLine where
  method := request.method
  target := request.path ++ request.query
  version := request.version
  method_valid := request.method_valid
  target_noBlank := by
    rw [List.mem_append, not_or]
    exact ⟨request.path_noBlank, request.query_noBlank⟩
  version_valid := request.version_valid

theorem line_noBreak (request : BodilessRequest) :
    NoBreak request.line.text := by
  have hmethod : NoBreak request.method.token := by
    cases request.method <;> decide
  have hversion : NoBreak request.version.text := by
    cases request.version <;> decide
  unfold RequestLine.text line
  simp only [noBreak_append, noBreak_cons]
  exact ⟨hmethod, by decide, ⟨request.path_noBreak, request.query_noBreak⟩,
    by decide, hversion⟩

def head (request : BodilessRequest) : RequestHead where
  line := request.line
  fields := request.headers.map WireField.line
  line_free := request.line_noBreak.free
  fields_free := by
    intro field hfield
    obtain ⟨wire, _, rfl⟩ := List.mem_map.mp hfield
    exact wire.line_noBreak.free
  fields_colon := by
    intro field hfield
    obtain ⟨wire, _, rfl⟩ := List.mem_map.mp hfield
    exact wire.line_isField

theorem head_text (request : BodilessRequest) :
    request.head.text = request.render := by
  unfold RequestHead.text head RequestLine.text line render frame
  simp [List.append_assoc, List.flatMap_map]

theorem setTarget_target (request : BodilessRequest) (req : HttpRequest) :
    req.setTarget (request.path ++ request.query) =
      if request.query = [] then req.setPath request.path
      else (req.setPath request.path).setQuery request.query := by
  rcases request.query_mark with hquery | hquery
  · rw [hquery, List.append_nil, if_pos rfl,
      setTarget_of_path req request.path_noQuery]
  · obtain ⟨query, hquery⟩ := List.head?_eq_some_iff.mp hquery
    rw [hquery, if_neg (by simp), setTarget_of_query req request.path_noQuery]

theorem head_request (request : BodilessRequest) (t : Timestamp) :
    ∃ headers : Headers,
      request.head.request {} t =
        { method_ := request.method
          version_ := request.version
          path_ := request.path
          query_ := request.query
          receiveTime_ := t
          headers_ := headers } ∧
      ∀ name, headers.lookup name =
        WireField.lastValue request.headers name := by
  have hlookup := fun name =>
    WireField.lookup_addFields request.headers (request.line.read {}) name
  refine ⟨(request.head.request {} t).headers_, ?_, ?_⟩
  · unfold RequestHead.request
    rw [addFields_eq]
    unfold HttpRequest.setReceiveTime head RequestLine.read line
    simp only [request.setTarget_target]
    split
    next hquery =>
      rw [hquery]
      rfl
    next => rfl
  · intro name
    have hempty : (request.line.read {}).headers_.lookup name = none := by
      rw [RequestLine.read_headers_]
      exact Finmap.lookup_empty name
    have hname := hlookup name
    rw [hempty, Option.or_none] at hname
    exact hname

/-- Parsing a rendered request from a fresh context gives back the request
and leaves what follows it. -/
theorem parseRequest_render (request : BodilessRequest) (rest : Bytes)
    (region : Region) (t : Timestamp) {buf : Buffer} (hbuf : buf.Inv)
    (hread : buf.readable = request.render ++ rest) :
    ∃ parsed, parseRequest region {} buf t = .ok parsed ∧
      parsed.ok = true ∧
      parsed.context.state_ = .kGotAll ∧
      parsed.context.request_.method_ = request.method ∧
      parsed.context.request_.path_ = request.path ∧
      parsed.context.request_.query_ = request.query ∧
      parsed.context.request_.version_ = request.version ∧
      (∀ name, parsed.context.request_.headers_.lookup name =
        WireField.lastValue request.headers name) ∧
      parsed.buf.readable = rest := by
  have hends := request.head.headEnds t {} rest
  rw [head_text, ← hread] at hends
  have hcall := parseRequest_of_headEnds region hbuf hends
  have hmethod : (request.head.request {} t).method_ ≠ .kPost := by
    rw [RequestHead.request_method_]
    exact request.method_bodiless
  obtain ⟨headers, hrequest, hheaders⟩ := request.head_request t
  unfold finishRequest expectBody at hcall
  rw [if_neg hmethod, hrequest] at hcall
  exact ⟨_, hcall, rfl, rfl, rfl, rfl, rfl, rfl, hheaders,
    readable_retrieve_suffix hbuf hends.suffix⟩

theorem isspace_blank : ∀ c ∈ ascii " ", isspace c :=
  List.all_eq_true.mp (by decide)

def putQuery : BodilessRequest where
  method := .kPut
  path := ascii "/a"
  query := ascii "?b"
  version := .kHttp10
  headers := [{
    name := ascii "k"
    before := ascii " "
    value := ascii "v"
    after := ascii " "
    name_noColon := by decide
    name_noBreak := by decide
    before_space := isspace_blank
    before_noBreak := by decide
    value_noBreak := by decide
    value_first := by rintro c ⟨⟩; decide
    value_last := by rintro c ⟨⟩; decide
    after_space := isspace_blank
    after_noBreak := by decide }]
  method_valid := by decide
  method_bodiless := by decide
  path_noBlank := by decide
  path_noQuery := by decide
  path_noBreak := by decide
  query_noBlank := by decide
  query_noBreak := by decide
  query_mark := by decide
  version_valid := by decide

theorem parseRequest_render_put :
    ∃ parsed, parseRequest .storage {}
        (ofReadable (ascii "PUT /a?b HTTP/1.0\r\nk: v \r\n\r\nGE")) {} =
          .ok parsed ∧
      parsed.ok = true ∧ parsed.context.request_.query_ = ascii "?b" ∧
      parsed.buf.readable = ascii "GE" := by
  obtain ⟨parsed, hcall, hok, _, _, _, hquery, _, _, hrest⟩ :=
    parseRequest_render putQuery (ascii "GE") .storage {}
      (ofReadable_inv (lt_maxSize (by decide)).le)
      (ofReadable_readable (putQuery.render ++ ascii "GE"))
  exact ⟨parsed, hcall, hok, hquery, hrest⟩

end BodilessRequest

end MyFileServer
