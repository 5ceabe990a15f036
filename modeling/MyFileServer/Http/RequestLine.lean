import MyFileServer.Http.HttpContext

/-!
# Valid request lines

A `RequestLine` is a method, a target without blanks and a version.  Its text
is exactly what `processRequestLine` accepts, and accepting it sets exactly
the fields that the request line names.
-/

namespace MyFileServer

open HttpRequest

namespace Method

def token : Method → Bytes
  | .kInvalid => []
  | .kGet => ascii "GET"
  | .kPost => ascii "POST"
  | .kHead => ascii "HEAD"
  | .kPut => ascii "PUT"
  | .kDelete => ascii "DELETE"

theorem token_noBlank (m : Method) : chr ' ' ∉ m.token := by
  cases m <;> decide

theorem methodOf_token (m : Method) : methodOf m.token = m := by
  cases m <;> decide

theorem token_methodOf {text : Bytes} (hvalid : methodOf text ≠ .kInvalid) :
    (methodOf text).token = text := by
  revert hvalid
  unfold methodOf
  split_ifs with hget hpost hhead hput hdelete <;> intro hvalid
  · exact hget.symm
  · exact hpost.symm
  · exact hhead.symm
  · exact hput.symm
  · exact hdelete.symm
  · exact absurd rfl hvalid

end Method

namespace Version

def text : Version → Bytes
  | .kUnknown => []
  | .kHttp10 => ascii "HTTP/1.0"
  | .kHttp11 => ascii "HTTP/1.1"

end Version

structure RequestLine where
  method : Method
  target : Bytes
  version : Version
  method_valid : method ≠ .kInvalid
  target_noBlank : chr ' ' ∉ target
  version_valid : version ≠ .kUnknown

namespace RequestLine

def text (line : RequestLine) : Bytes :=
  line.method.token ++ chr ' ' :: (line.target ++ chr ' ' :: line.version.text)

def root (method : Method) (hmethod : method ≠ .kInvalid) : RequestLine :=
  ⟨method, ascii "/", .kHttp11, hmethod, by decide, by decide⟩

end RequestLine

theorem idxOf_append_cons {l r : Bytes} {c : UInt8} (hc : c ∉ l) :
    (l ++ c :: r).idxOf c = l.length := by
  rw [List.idxOf_append_of_notMem hc, List.idxOf_cons_self, Nat.add_zero]

theorem take_append_cons (l r : Bytes) (c : UInt8) :
    (l ++ c :: r).take l.length = l :=
  List.take_left' rfl

theorem drop_append_cons (l r : Bytes) (c : UInt8) :
    (l ++ c :: r).drop (l.length + 1) = r := by
  rw [← List.drop_drop, List.drop_left' rfl, List.drop_one, List.tail_cons]

/-- The path and the query that `processRequestLine` cuts out of a target. -/
def HttpRequest.setTarget (req : HttpRequest) (target : Bytes) : HttpRequest :=
  if target.idxOf (chr '?') ≠ target.length then
    (req.setPath (target.take (target.idxOf (chr '?')))).setQuery
      (target.drop (target.idxOf (chr '?')))
  else
    req.setPath target

theorem setTarget_of_query (req : HttpRequest) {path query : Bytes}
    (hpath : chr '?' ∉ path) :
    req.setTarget (path ++ chr '?' :: query) =
      (req.setPath path).setQuery (chr '?' :: query) := by
  unfold setTarget
  rw [idxOf_append_cons hpath, if_pos (by simp), take_append_cons,
    List.drop_left' rfl]

theorem setTarget_of_path (req : HttpRequest) {path : Bytes}
    (hpath : chr '?' ∉ path) : req.setTarget path = req.setPath path := by
  unfold setTarget
  rw [List.idxOf_of_notMem hpath, if_neg (by simp)]

theorem version_eq_append {version stem : Bytes}
    (hlength : version.length = 8)
    (htake : version.take 7 = stem) {c : UInt8}
    (hlast : version.getLast? = some c) : version = stem ++ [c] := by
  have hdrop : version.dropLast = stem := by
    rw [List.dropLast_eq_take, hlength, ← htake]
  have hsplit : version.dropLast ++ [c] = version :=
    List.dropLast_append_getLast? c hlast
  rw [← hsplit, hdrop]

theorem processRequestLine_parts
    (req : HttpRequest) {m target version : Bytes}
    (hm : chr ' ' ∉ m) (htarget : chr ' ' ∉ target) :
    processRequestLine req (m ++ chr ' ' :: (target ++ chr ' ' :: version)) =
      if methodOf m = .kInvalid then
        (false, { req with method_ := .kInvalid })
      else
        let read := ({ req with method_ := methodOf m }).setTarget target
        if version = ascii "HTTP/1.1" then (true, read.setVersion .kHttp11)
        else if version = ascii "HTTP/1.0" then (true, read.setVersion .kHttp10)
        else (false, read) := by
  unfold processRequestLine
  simp only [idxOf_append_cons hm, take_append_cons, drop_append_cons,
    idxOf_append_cons htarget]
  rw [if_neg (by simp)]
  unfold setMethod
  by_cases hmethod : methodOf m = .kInvalid
  · simp [hmethod]
  · simp only [hmethod, ne_eq, not_false_eq_true, decide_true, Bool.not_true,
      Bool.false_eq_true, if_false]
    rw [if_neg (by simp)]
    change (if version.length = 8 ∧ version.take 7 = ascii "HTTP/1." then
        if version.getLast? = some (chr '1') then
          (true, (setTarget { req with method_ := methodOf m } target).setVersion .kHttp11)
        else if version.getLast? = some (chr '0') then
          (true, (setTarget { req with method_ := methodOf m } target).setVersion .kHttp10)
        else (false, setTarget { req with method_ := methodOf m } target)
      else (false, setTarget { req with method_ := methodOf m } target)) = _
    generalize setTarget { req with method_ := methodOf m } target = read
    by_cases h11 : version = ascii "HTTP/1.1"
    · subst h11
      rfl
    by_cases h10 : version = ascii "HTTP/1.0"
    · subst h10
      rfl
    rw [if_neg h11, if_neg h10]
    split_ifs with hstem hone hzero
    · exact absurd (version_eq_append hstem.1 hstem.2 hone) h11
    · exact absurd (version_eq_append hstem.1 hstem.2 hzero) h10
    · rfl
    · rfl

theorem exists_parts_of_accepted {req req' : HttpRequest} {line : Bytes}
    (haccept : processRequestLine req line = (true, req')) :
    ∃ m target version,
      line = m ++ chr ' ' :: (target ++ chr ' ' :: version) ∧
        chr ' ' ∉ m ∧ chr ' ' ∉ target := by
  by_cases hfirst : chr ' ' ∈ line
  · rcases List.eq_append_cons_of_mem hfirst with ⟨m, rest, rfl, hm⟩
    by_cases hsecond : chr ' ' ∈ rest
    · rcases List.eq_append_cons_of_mem hsecond with
        ⟨target, version, rfl, htarget⟩
      exact ⟨m, target, version, rfl, hm, htarget⟩
    · unfold processRequestLine at haccept
      simp only [idxOf_append_cons hm, take_append_cons, drop_append_cons,
        List.idxOf_of_notMem hsecond] at haccept
      rw [if_neg (by simp)] at haccept
      split at haccept <;> simp at haccept
  · unfold processRequestLine at haccept
    simp only [List.idxOf_of_notMem hfirst, if_true] at haccept
    cases haccept

def RequestLine.read (line : RequestLine) (req : HttpRequest) : HttpRequest :=
  (({ req with method_ := line.method }).setTarget line.target).setVersion
    line.version

theorem processRequestLine_text (line : RequestLine) (req : HttpRequest) :
    processRequestLine req line.text = (true, line.read req) := by
  unfold RequestLine.text RequestLine.read
  rw [processRequestLine_parts req line.method.token_noBlank
    line.target_noBlank, line.method.methodOf_token, if_neg line.method_valid]
  have hversion := line.version_valid
  cases hcase : line.version with
  | kUnknown => exact absurd hcase hversion
  | kHttp10 => rfl
  | kHttp11 => rfl

theorem exists_requestLine_of_accepted {req req' : HttpRequest} {line : Bytes}
    (haccept : processRequestLine req line = (true, req')) :
    ∃ parsed : RequestLine, line = parsed.text ∧ req' = parsed.read req := by
  rcases exists_parts_of_accepted haccept with
    ⟨m, target, version, rfl, hm, htarget⟩
  rw [processRequestLine_parts req hm htarget] at haccept
  split at haccept
  next => cases haccept
  next hmethod =>
    have htoken := Method.token_methodOf hmethod
    simp only at haccept
    split at haccept
    next h11 =>
      refine ⟨⟨methodOf m, target, .kHttp11, hmethod, htarget, by simp⟩, ?_, ?_⟩
      · simp only [RequestLine.text, htoken, h11]
        rfl
      · exact (Prod.mk.inj haccept).2.symm
    next =>
      split at haccept
      next h10 =>
        refine ⟨⟨methodOf m, target, .kHttp10, hmethod, htarget, by simp⟩, ?_, ?_⟩
        · simp only [RequestLine.text, htoken, h10]
          rfl
        · exact (Prod.mk.inj haccept).2.symm
      next => cases haccept

@[simp] theorem RequestLine.read_method_ (line : RequestLine)
    (req : HttpRequest) : (line.read req).method_ = line.method := by
  unfold RequestLine.read HttpRequest.setTarget
  split <;> rfl

/-- The target up to the query. -/
def RequestLine.path (line : RequestLine) : Bytes :=
  line.target.take (line.target.idxOf (chr '?'))

@[simp] theorem RequestLine.read_path_ (line : RequestLine)
    (req : HttpRequest) : (line.read req).path_ = line.path := by
  unfold RequestLine.read RequestLine.path HttpRequest.setTarget
  split
  next => rfl
  next hquery =>
    rw [not_not.mp hquery, List.take_length]
    rfl

@[simp] theorem RequestLine.read_headers_ (line : RequestLine)
    (req : HttpRequest) : (line.read req).headers_ = req.headers_ := by
  unfold RequestLine.read HttpRequest.setTarget
  split <;> rfl

/-! ## Which lines are accepted -/

/-- The texts that `setMethod` compares with. -/
def methodTexts : List Bytes :=
  [ascii "GET", ascii "POST", ascii "HEAD", ascii "PUT", ascii "DELETE"]

/-- `line` is the method `m`, the target `t` and a version of one digit `d`
after the point, with single blanks between. -/
structure IsRequestLine (line m t : Bytes) (d : UInt8) : Prop where
  line_eq : line = m ++ ascii " " ++ t ++ ascii " HTTP/1." ++ [d]
  method : m ∈ methodTexts
  target : chr ' ' ∉ t
  digit : d = chr '0' ∨ d = chr '1'

theorem methodOf_ne_kInvalid_iff (m : Bytes) :
    methodOf m ≠ .kInvalid ↔ m ∈ methodTexts := by
  constructor
  · intro hvalid
    rw [← Method.token_methodOf hvalid]
    revert hvalid
    cases methodOf m <;> simp [Method.token, methodTexts]
  · intro hmem
    unfold methodTexts at hmem
    simp only [List.mem_cons, List.not_mem_nil, or_false] at hmem
    rcases hmem with rfl | rfl | rfl | rfl | rfl <;> decide

/-- The last byte of the text of a version. -/
def Version.digit : Version → UInt8
  | .kUnknown => 0
  | .kHttp10 => chr '0'
  | .kHttp11 => chr '1'

theorem Version.text_eq {version : Version} (hvalid : version ≠ .kUnknown) :
    chr ' ' :: version.text = ascii " HTTP/1." ++ [version.digit] := by
  cases version with
  | kUnknown => exact absurd rfl hvalid
  | kHttp10 => rfl
  | kHttp11 => rfl

theorem exists_version {d : UInt8} (hdigit : d = chr '0' ∨ d = chr '1') :
    ∃ version : Version, version ≠ .kUnknown ∧ version.digit = d := by
  rcases hdigit with rfl | rfl
  · exact ⟨.kHttp10, by simp, rfl⟩
  · exact ⟨.kHttp11, by simp, rfl⟩

theorem RequestLine.text_eq (line : RequestLine) :
    line.text = line.method.token ++ ascii " " ++ line.target ++
      ascii " HTTP/1." ++ [line.version.digit] := by
  have hversion := Version.text_eq line.version_valid
  unfold RequestLine.text
  rw [hversion]
  simp only [List.append_assoc]
  rfl

theorem RequestLine.isRequestLine (line : RequestLine) :
    IsRequestLine line.text line.method.token line.target line.version.digit where
  line_eq := line.text_eq
  method := by
    rw [← methodOf_ne_kInvalid_iff, Method.methodOf_token]
    exact line.method_valid
  target := line.target_noBlank
  digit := by
    have hvalid := line.version_valid
    revert hvalid
    cases line.version <;> simp [Version.digit]

theorem IsRequestLine.exists_requestLine {text m t : Bytes} {d : UInt8}
    (hline : IsRequestLine text m t d) :
    ∃ line : RequestLine, text = line.text ∧ line.target = t := by
  obtain ⟨htext, hmethod, htarget, hdigit⟩ := hline
  rw [← methodOf_ne_kInvalid_iff] at hmethod
  obtain ⟨version, hversion, rfl⟩ := exists_version hdigit
  let parsed : RequestLine :=
    ⟨methodOf m, t, version, hmethod, htarget, hversion⟩
  have hparsed := parsed.text_eq
  simp only [parsed, Method.token_methodOf hmethod] at hparsed
  exact ⟨parsed, htext.trans hparsed.symm, rfl⟩

/-- The cut at the first question mark loses nothing of the target. -/
theorem setTarget_split {req : HttpRequest} (hquery : req.query_ = [])
    (target : Bytes) :
    (req.setTarget target).path_ ++ (req.setTarget target).query_ = target ∧
      chr '?' ∉ (req.setTarget target).path_ ∧
      ((req.setTarget target).query_ = [] ∨
        (req.setTarget target).query_.head? = some (chr '?')) := by
  by_cases hmem : chr '?' ∈ target
  · obtain ⟨path, query, rfl, hpath⟩ := List.eq_append_cons_of_mem hmem
    rw [setTarget_of_query req hpath]
    exact ⟨rfl, hpath, .inr rfl⟩
  · rw [setTarget_of_path req hmem]
    refine ⟨?_, hmem, .inl hquery⟩
    change target ++ req.query_ = target
    rw [hquery, List.append_nil]

/-- A line is accepted exactly when it is a request line.  Its target is then
the path followed by the query, for a request that had no query before; what
the path was before does not matter. -/
theorem processRequestLine_accepts_iff (req : HttpRequest) (line : Bytes) :
    ((processRequestLine req line).1 = true ↔
      ∃ m t d, IsRequestLine line m t d) ∧
    ∀ m t d, IsRequestLine line m t d → req.query_ = [] →
      let read := (processRequestLine req line).2
      read.path_ ++ read.query_ = t ∧ chr '?' ∉ read.path_ ∧
        (read.query_ = [] ∨ read.query_.head? = some (chr '?')) := by
  refine ⟨⟨?_, ?_⟩, ?_⟩
  · intro haccept
    have hcall : processRequestLine req line =
        (true, (processRequestLine req line).2) := Prod.ext haccept rfl
    obtain ⟨parsed, rfl, _⟩ := exists_requestLine_of_accepted hcall
    exact ⟨_, _, _, parsed.isRequestLine⟩
  · rintro ⟨m, t, d, hline⟩
    obtain ⟨parsed, rfl, _⟩ := hline.exists_requestLine
    rw [processRequestLine_text]
  · intro m t d hline hquery
    obtain ⟨parsed, rfl, rfl⟩ := hline.exists_requestLine
    rw [processRequestLine_text]
    have hempty : ({ req with method_ := parsed.method } : HttpRequest).query_ = [] :=
      hquery
    exact setTarget_split hempty parsed.target

theorem processRequestLine_accepts_page :
    let read := (processRequestLine {} (ascii "GET /a?b=? HTTP/1.0")).2
    read.path_ ++ read.query_ = ascii "/a?b=?" ∧ chr '?' ∉ read.path_ ∧
      (read.query_ = [] ∨ read.query_.head? = some (chr '?')) := by
  have hline : IsRequestLine (ascii "GET /a?b=? HTTP/1.0") (ascii "GET")
      (ascii "/a?b=?") (chr '0') :=
    ⟨by decide, by decide, by decide, .inl rfl⟩
  exact (processRequestLine_accepts_iff {} _).2 _ _ _ hline rfl

end MyFileServer
