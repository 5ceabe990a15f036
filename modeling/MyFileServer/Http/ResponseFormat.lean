import MyFileServer.Http.HttpResponse
import MyFileServer.Http.RoundTrip

/-!
# Reading a response back

`parseResponse` is a client: a status line, lines of the form `name: value`
up to the empty line, and the body.  The file says for which responses the
client gets back what the server has put in.
-/

namespace MyFileServer

open Execution Delimiter Buffer

structure ParsedResponse where
  code : ℕ
  message : Bytes
  headers : List HeaderLine
  body : Bytes
  deriving DecidableEq

/-! ## The client -/

def cutLine (text : Bytes) : Option (Bytes × Bytes) :=
  let crlf := search kCRLF text
  if crlf = text.length then none
  else some (text.take crlf, text.drop (crlf + 2))

def number (digits : Bytes) : ℕ :=
  digits.foldl (fun value c => value * 10 + (c.toNat - 48)) 0

def readStatusLine (line : Bytes) : Option (ℕ × Bytes) :=
  if line.take 9 = ascii "HTTP/1.1 " then
    let line := line.drop 9
    let code := line.takeWhile isdigit
    if code ≠ [] ∧ (line.drop code.length).head? = some (chr ' ') then
      some (number code, line.drop (code.length + 1))
    else none
  else none

def readHeader (line : Bytes) : Option HeaderLine :=
  let colon := line.idxOf (chr ':')
  if (line.drop colon).take 2 = ascii ": " then
    some (line.take colon, line.drop (colon + 2))
  else none

def readHeaders : ℕ → Bytes → Option (List HeaderLine × Bytes)
  | 0, _ => none
  | fuel + 1, text => do
      let (line, rest) ← cutLine text
      if line = [] then
        return ([], rest)
      else
        let header ← readHeader line
        let (headers, body) ← readHeaders fuel rest
        return (header :: headers, body)

def parseResponse (text : Bytes) : Option ParsedResponse := do
  let (line, rest) ← cutLine text
  let (code, message) ← readStatusLine line
  let (headers, body) ← readHeaders (rest.length + 1) rest
  return { code, message, headers, body }

example : parseResponse (ascii "HTTP/1.1 404 Not Found\r\nA: b\r\n\r\nc\r\n") =
    some ⟨404, ascii "Not Found", [(ascii "A", ascii "b")], ascii "c\r\n"⟩ := by
  decide

/-! ## Lines -/

theorem cutLine_line {line : Bytes} (hline : NoBreak line) (rest : Bytes) :
    cutLine (line ++ kCRLF ++ rest) = some (line, rest) := by
  have hsearch := search_line kCRLF_ne_nil kCRLF_unbordered hline.free rest
  have hshort : line.length ≠ (line ++ kCRLF ++ rest).length := by
    have hcrlf : kCRLF.length = 2 := rfl
    simp only [List.length_append, hcrlf]
    omega
  have hdrop : (line ++ kCRLF ++ rest).drop (line.length + 2) = rest :=
    List.drop_left' (by simp [kCRLF])
  unfold cutLine
  simp only [hsearch, hdrop, if_neg hshort]
  rw [List.append_assoc, List.take_left' rfl]

structure PlainHeader (header : HeaderLine) : Prop where
  name_noColon : chr ':' ∉ header.1
  name_noBreak : NoBreak header.1
  value_noBreak : NoBreak header.2

def headerText (header : HeaderLine) : Bytes :=
  header.1 ++ chr ':' :: chr ' ' :: header.2

theorem headerText_ne_nil (header : HeaderLine) : headerText header ≠ [] := by
  simp [headerText]

theorem PlainHeader.noBreak {header : HeaderLine} (hheader : PlainHeader header) :
    NoBreak (headerText header) := by
  unfold headerText
  simp only [noBreak_append, noBreak_cons]
  exact ⟨hheader.name_noBreak, by decide, by decide, hheader.value_noBreak⟩

theorem PlainHeader.readHeader {header : HeaderLine}
    (hheader : PlainHeader header) :
    readHeader (headerText header) = some header := by
  have hcolon : (headerText header).idxOf (chr ':') = header.1.length :=
    idxOf_append_cons hheader.name_noColon
  have hvalue : (headerText header).drop (header.1.length + 2) = header.2 := by
    unfold headerText
    rw [← List.drop_drop, List.drop_left' rfl]
    rfl
  unfold MyFileServer.readHeader
  simp only [hcolon, hvalue]
  unfold headerText
  rw [List.drop_left' rfl, List.take_left' rfl]
  rfl

theorem readHeaders_frame {headers : List HeaderLine}
    (hheaders : ∀ header ∈ headers, PlainHeader header) (body : Bytes)
    {fuel : ℕ} (hfuel : headers.length < fuel) :
    readHeaders fuel (frame kCRLF (headers.map headerText) ++ kCRLF ++ body) =
      some (headers, body) := by
  induction headers generalizing fuel with
  | nil =>
      obtain ⟨fuel, rfl⟩ := Nat.exists_eq_add_one_of_ne_zero
        (Nat.ne_zero_of_lt hfuel)
      have hempty : cutLine (kCRLF ++ body) = some ([], body) :=
        cutLine_line (by decide : NoBreak []) body
      simp [readHeaders, hempty]
  | cons header headers ih =>
      obtain ⟨fuel, rfl⟩ := Nat.exists_eq_add_one_of_ne_zero
        (Nat.ne_zero_of_lt hfuel)
      have hsplit := List.forall_mem_cons.mp hheaders
      have hrest := ih hsplit.2 (Nat.lt_of_succ_lt_succ hfuel)
      have hcut := cutLine_line hsplit.1.noBreak
        (frame kCRLF (headers.map headerText) ++ kCRLF ++ body)
      have htext : frame kCRLF ((header :: headers).map headerText) ++ kCRLF ++
          body = headerText header ++ kCRLF ++
            (frame kCRLF (headers.map headerText) ++ kCRLF ++ body) := by
        simp [List.append_assoc]
      rw [htext]
      simp only [readHeaders, hcut, bind, Option.bind, headerText_ne_nil, if_false,
        hsplit.1.readHeader, hrest]
      rfl

theorem readStatusLine_start (code : HttpStatusCode) (message : Bytes) :
    readStatusLine (ascii "HTTP/1.1 " ++ decimal code.value ++ ascii " " ++
      message) = some (code.value, message) := by
  cases code <;> rfl

/-! ## The text of a response -/

namespace HttpResponse

structure WellFormed (res : HttpResponse) : Prop where
  message_noBreak : NoBreak res.statusMessage_
  headers_plain : ∀ header ∈ headerLines res.headers_, PlainHeader header

/-- The header that the two appends about the connection produce. -/
def connectionLine (res : HttpResponse) : HeaderLine :=
  if res.closeConnection_ then (ascii "Connection", ascii "close")
  else (res.statusStart ++ ascii "Connection", ascii "Keep-Alive")

/-- The header that a client has to find. -/
def connectionHeader (res : HttpResponse) : HeaderLine :=
  (ascii "Connection",
    if res.closeConnection_ then ascii "close" else ascii "Keep-Alive")

theorem connectionLine_eq_iff (res : HttpResponse) :
    res.connectionLine = res.connectionHeader ↔ res.closeConnection_ = true := by
  unfold connectionLine connectionHeader
  cases res.closeConnection_ with
  | true => simp
  | false =>
      have hstart : res.statusStart ≠ [] := by
        simp [statusStart, ascii]
      simp [hstart]

theorem statusStart_noBreak (res : HttpResponse) : NoBreak res.statusStart := by
  unfold statusStart
  cases res.statusCode_ <;> decide

theorem connectionLine_plain (res : HttpResponse) :
    PlainHeader res.connectionLine := by
  have hcolon : chr ':' ∉ res.statusStart := by
    unfold statusStart
    cases res.statusCode_ <;> decide
  unfold connectionLine
  split
  · exact ⟨by decide, by decide, by decide⟩
  · have hvalue : NoBreak (ascii "Keep-Alive") := by decide
    refine ⟨?_, noBreak_append.mpr ⟨res.statusStart_noBreak, by decide⟩, hvalue⟩
    rw [List.mem_append, not_or]
    exact ⟨hcolon, by decide⟩

def text (res : HttpResponse) (order : Traversal res.headers_) : Bytes :=
  res.statusStart ++ res.statusMessage_ ++ kCRLF ++
    (frame kCRLF ((res.connectionLine :: order.1).map headerText) ++ kCRLF ++
      res.body_)

theorem flatten_pieces (res : HttpResponse) (order : Traversal res.headers_) :
    (res.pieces order).flatten = res.text order := by
  have hheaders : (order.1.flatMap headerPieces).flatten =
      frame kCRLF (order.1.map headerText) := by
    induction order.1 with
    | nil => rfl
    | cons header headers ih =>
        rw [List.flatMap_cons, List.flatten_append, ih]
        simp [headerPieces, headerText, ascii, kCRLF]
  unfold pieces text connectionPieces connectionLine
  rw [List.flatten_append, List.flatten_append, hheaders]
  cases res.closeConnection_ <;> simp [headerText, ascii, kCRLF]

theorem parseResponse_text {res : HttpResponse} (hres : res.WellFormed)
    (order : Traversal res.headers_) :
    parseResponse (res.text order) = some {
      code := res.statusCode_.value
      message := res.statusMessage_
      headers := res.connectionLine :: order.1
      body := res.body_ } := by
  have hline : NoBreak (res.statusStart ++ res.statusMessage_) :=
    noBreak_append.mpr ⟨res.statusStart_noBreak, hres.message_noBreak⟩
  have hplain : ∀ header ∈ res.connectionLine :: order.1, PlainHeader header := by
    intro header hheader
    rcases List.mem_cons.mp hheader with rfl | horder
    · exact res.connectionLine_plain
    · apply hres.headers_plain
      rw [← order.2]
      exact horder
  have hfuel : (res.connectionLine :: order.1).length <
      (frame kCRLF ((res.connectionLine :: order.1).map headerText) ++ kCRLF ++
        res.body_).length + 1 := by
    have hframe := length_mul_le_length_frame kCRLF
      ((res.connectionLine :: order.1).map headerText)
    have hcrlf : kCRLF.length = 2 := rfl
    rw [List.length_map, hcrlf] at hframe
    rw [List.length_append, List.length_append]
    omega
  have hheaders := readHeaders_frame hplain res.body_ hfuel
  have hstatus := readStatusLine_start res.statusCode_ res.statusMessage_
  unfold parseResponse text
  simp only [cutLine_line hline, bind, Option.bind]
  unfold statusStart
  simp only [hstatus, hheaders]
  rfl

/-! ## The round trip -/

/-- The bytes that the call adds read back as the response. -/
def RoundTrips (res : HttpResponse) (order : Traversal res.headers_)
    (output : Buffer) : Prop :=
  ∃ output' text parsed,
    res.appendToBuffer order output = .ok output' ∧
    output'.readable = output.readable ++ text ∧
    parseResponse text = some parsed ∧
    parsed.code = res.statusCode_.value ∧
    parsed.message = res.statusMessage_ ∧
    parsed.body = res.body_ ∧
    (parsed.headers : Multiset HeaderLine) =
      res.connectionHeader ::ₘ headerLines res.headers_

theorem appendToBuffer_spec {res : HttpResponse} {order : Traversal res.headers_}
    {output output' : Buffer} (houtput : output.Inv)
    (hcall : res.appendToBuffer order output = .ok output') :
    output'.Inv ∧ output'.readable = output.readable ++ res.text order := by
  rw [appendToBuffer_eq] at hcall
  rw [← flatten_pieces]
  exact appendAll_spec houtput hcall

/-- A response is read back exactly when it closes the connection: on the
other branch the start of the status line is appended a second time. -/
theorem appendToBuffer_round_trips_iff {res : HttpResponse}
    (hres : res.WellFormed) (order : Traversal res.headers_)
    {output : Buffer} (houtput : output.Inv) :
    res.RoundTrips order output ↔
      res.closeConnection_ = true ∧ output.RoomForAll (res.pieces order) := by
  have hreturns : Returns (res.appendToBuffer order output) ↔
      output.RoomForAll (res.pieces order) := by
    rw [appendToBuffer_eq]
    exact appendAll_returns_iff houtput
  have hparse := parseResponse_text hres order
  have hheaders :
      ((res.connectionLine :: order.1 : List HeaderLine) : Multiset HeaderLine) =
          res.connectionHeader ::ₘ headerLines res.headers_ ↔
        res.closeConnection_ = true := by
    rw [← connectionLine_eq_iff, ← Multiset.cons_coe, order.2,
      Multiset.cons_inj_left]
  rw [← hreturns, ← hheaders]
  constructor
  · rintro ⟨output', text, parsed, hcall, htext, hread, _, _, _, hfound⟩
    refine ⟨?_, output', hcall⟩
    have hsame : text = res.text order := by
      rw [(appendToBuffer_spec houtput hcall).2] at htext
      exact (List.append_cancel_left htext).symm
    rw [hsame, hparse, Option.some.injEq] at hread
    rw [← hfound, ← hread]
  · rintro ⟨hfound, output', hcall⟩
    exact ⟨output', res.text order, _, hcall,
      (appendToBuffer_spec houtput hcall).2, hparse, rfl, rfl, rfl, hfound⟩

def notFound (close : Bool) : HttpResponse where
  statusCode_ := .k404NotFound
  statusMessage_ := ascii "Not Found"
  closeConnection_ := close
  body_ := ascii "gone"

theorem notFound_wellFormed (close : Bool) : (notFound close).WellFormed where
  message_noBreak := (by decide : NoBreak (ascii "Not Found"))
  headers_plain := fun header hheader =>
    absurd hheader (Multiset.notMem_zero header)

def noHeaders (close : Bool) : Traversal (notFound close).headers_ :=
  ⟨[], rfl⟩

theorem notFound_round_trips : (notFound true).RoundTrips (noHeaders true) initial := by
  refine (appendToBuffer_round_trips_iff (notFound_wellFormed true)
    (noHeaders true) initial_inv).mpr ⟨rfl, ?_⟩
  apply (appendAll_returns_iff initial_inv).mp
  exact appendAll_returns_of_lt initial_inv (by decide +kernel)

theorem not_round_trips_keepAlive :
    (notFound false).WellFormed ∧
      ((notFound false).appendToBuffer (noHeaders false) initial).map (·.readable) =
        .ok (ascii
          "HTTP/1.1 404 Not Found\r\nHTTP/1.1 404 Connection: Keep-Alive\r\n\r\ngone") ∧
      ¬ (notFound false).RoundTrips (noHeaders false) initial := by
  refine ⟨notFound_wellFormed false, by decide +kernel, ?_⟩
  intro htrip
  have hclose := ((appendToBuffer_round_trips_iff (notFound_wellFormed false)
    (noHeaders false) initial_inv).mp htrip).1
  cases hclose

end HttpResponse

end MyFileServer
