import MyFileServer.Http.HttpRequest
import MyFileServer.Net.BufferQueue

/-!
# The response

The fields of `HttpResponse`, the functions that set them, and
`appendToBuffer`.  The loop over the header map runs in the order of an
enumeration of the map, which nothing fixes.
-/

namespace MyFileServer

open Execution Buffer

inductive HttpStatusCode
  | kUnknown
  | k200Ok
  | k204NoContent
  | k206Partitial
  | k301MovedPermanently
  | k400BadRequest
  | k404NotFound
  | k500InternalError
  deriving DecidableEq, Repr

def HttpStatusCode.value : HttpStatusCode → ℕ
  | .kUnknown => 0
  | .k200Ok => 200
  | .k204NoContent => 204
  | .k206Partitial => 206
  | .k301MovedPermanently => 301
  | .k400BadRequest => 400
  | .k404NotFound => 404
  | .k500InternalError => 500

/-- The constructor leaves `len_` uninitialised, which is `none` here. -/
structure HttpResponse where
  headers_ : Headers := ∅
  statusCode_ : HttpStatusCode := .kUnknown
  statusMessage_ : Bytes := []
  closeConnection_ : Bool
  body_ : Bytes := []
  fd_ : ℤ := -1
  len_ : Option ℤ := none
  deriving DecidableEq

namespace HttpResponse

def setStatusCode (res : HttpResponse) (code : HttpStatusCode) : HttpResponse :=
  { res with statusCode_ := code }

def setStatusMessage (res : HttpResponse) (message : Bytes) : HttpResponse :=
  { res with statusMessage_ := message }

def addHeader (res : HttpResponse) (key value : Bytes) : HttpResponse :=
  { res with headers_ := res.headers_.insert key value }

def setContentType (res : HttpResponse) (contentType : Bytes) : HttpResponse :=
  res.addHeader (ascii "Content-Type") contentType

def setDisposition (res : HttpResponse) (file : Bytes) : HttpResponse :=
  res.addHeader (ascii "Content-Disposition")
    (ascii "attachment;filename=" ++ file)

def setBody (res : HttpResponse) (body : Bytes) : HttpResponse :=
  { res with body_ := body }

def setFd (res : HttpResponse) (fd : ℤ) : HttpResponse :=
  { res with fd_ := fd }

def setSendLen (res : HttpResponse) (len : ℤ) : HttpResponse :=
  { res with len_ := some len }

def needSendFile (res : HttpResponse) : Bool :=
  res.fd_ ≠ -1

end HttpResponse

abbrev HeaderLine := Bytes × Bytes

def headerLines (headers : Headers) : Multiset HeaderLine :=
  headers.entries.map fun entry => (entry.1, entry.2)

/-- An order in which a loop may visit the entries of the map. -/
abbrev Traversal (headers : Headers) :=
  { order : List HeaderLine // (order : Multiset HeaderLine) = headerLines headers }

/-- Some order; every map has one. -/
noncomputable def storedOrder (headers : Headers) : Traversal headers :=
  ⟨(headerLines headers).toList, Multiset.coe_toList _⟩

namespace HttpResponse

/-- `buf`, the status line up to the message. -/
def statusStart (res : HttpResponse) : Bytes :=
  ascii "HTTP/1.1 " ++ decimal res.statusCode_.value ++ ascii " "

def appendHeader (output : Buffer) (header : HeaderLine) : Exec Buffer := do
  let output ← output.append header.1
  let output ← output.append (ascii ": ")
  let output ← output.append header.2
  output.append (ascii "\r\n")

def appendToBuffer (res : HttpResponse) (order : Traversal res.headers_)
    (output : Buffer) : Exec Buffer := do
  let output ← output.append res.statusStart
  let output ← output.append res.statusMessage_
  let output ← output.append (ascii "\r\n")
  let output ←
    if res.closeConnection_ then
      output.append (ascii "Connection: close\r\n")
    else do
      -- the line that would have written a length into `buf` is commented out
      let output ← output.append res.statusStart
      output.append (ascii "Connection: Keep-Alive\r\n")
  let output ← order.1.foldlM appendHeader output
  let output ← output.append (ascii "\r\n")
  output.append res.body_

end HttpResponse

/-! ## A sequence of appends -/

namespace Buffer

def appendAll (output : Buffer) (pieces : List Bytes) : Exec Buffer :=
  pieces.foldlM append output

/-- Every piece finds room when its turn comes. -/
def RoomForAll : Buffer → List Bytes → Prop
  | _, [] => True
  | output, piece :: pieces =>
      output.Room piece.length ∧
        ∀ next, output.append piece = .ok next → next.RoomForAll pieces

@[simp] theorem appendAll_nil (output : Buffer) :
    output.appendAll [] = pure output := rfl

theorem appendAll_cons (output : Buffer) (piece : Bytes) (pieces : List Bytes) :
    output.appendAll (piece :: pieces) =
      output.append piece >>= fun next => next.appendAll pieces :=
  List.foldlM_cons

theorem appendAll_append (output : Buffer) (before after : List Bytes) :
    output.appendAll (before ++ after) =
      output.appendAll before >>= fun next => next.appendAll after :=
  List.foldlM_append

theorem appendAll_spec {output final : Buffer} (houtput : output.Inv)
    {pieces : List Bytes} (hcall : output.appendAll pieces = .ok final) :
    final.Inv ∧ final.readable = output.readable ++ pieces.flatten := by
  induction pieces generalizing output with
  | nil =>
      cases hcall
      exact ⟨houtput, by simp⟩
  | cons piece pieces ih =>
      rw [appendAll_cons] at hcall
      obtain ⟨next, hfirst, hrest⟩ := bind_eq_ok.mp hcall
      obtain ⟨hnext, hread, _⟩ := append_spec houtput hfirst
      obtain ⟨hfinal, hall⟩ := ih hnext hrest
      refine ⟨hfinal, ?_⟩
      rw [hall, hread, List.flatten_cons, List.append_assoc]

/-- Short pieces always find room. -/
theorem appendAll_returns_of_lt {output : Buffer} (houtput : output.Inv)
    {pieces : List Bytes}
    (hshort : output.buffer_.length + (pieces.map List.length).sum < 2 ^ 31) :
    Returns (output.appendAll pieces) := by
  induction pieces generalizing output with
  | nil => exact returns_ok output
  | cons piece pieces ih =>
      rw [List.map_cons, List.sum_cons] at hshort
      have hwriter := houtput.writer_le
      have hgrow : output.writerIndex_ + piece.length ≤ maxSize :=
        (lt_maxSize (by omega)).le
      have hpiece : piece.length < 2 ^ 31 := by omega
      obtain ⟨next, hfirst⟩ := append_returns houtput (.of_lt hpiece hgrow)
      have hlength := append_length_le houtput hpiece hfirst
      rw [appendAll_cons, returns_bind]
      exact ⟨next, hfirst, ih (append_spec houtput hfirst).1 (by omega)⟩

theorem appendAll_returns_iff {output : Buffer} (houtput : output.Inv)
    {pieces : List Bytes} :
    Returns (output.appendAll pieces) ↔ output.RoomForAll pieces := by
  induction pieces generalizing output with
  | nil => exact iff_of_true (returns_ok output) trivial
  | cons piece pieces ih =>
      rw [appendAll_cons, returns_bind]
      constructor
      · rintro ⟨next, hfirst, hrest⟩
        refine ⟨(append_returns_iff houtput).mp ⟨next, hfirst⟩, ?_⟩
        intro next' hnext
        obtain rfl : next = next' := Except.ok.inj (hfirst.symm.trans hnext)
        exact (ih (append_spec houtput hfirst).1).mp hrest
      · rintro ⟨hroom, hrest⟩
        obtain ⟨next, hfirst⟩ := (append_returns_iff houtput).mpr hroom
        refine ⟨next, hfirst, ?_⟩
        exact (ih (append_spec houtput hfirst).1).mpr (hrest next hfirst)

end Buffer

namespace HttpResponse

def headerPieces (header : HeaderLine) : List Bytes :=
  [header.1, ascii ": ", header.2, ascii "\r\n"]

def connectionPieces (res : HttpResponse) : List Bytes :=
  if res.closeConnection_ then [ascii "Connection: close\r\n"]
  else [res.statusStart, ascii "Connection: Keep-Alive\r\n"]

def pieces (res : HttpResponse) (order : Traversal res.headers_) : List Bytes :=
  [res.statusStart, res.statusMessage_, ascii "\r\n"] ++ res.connectionPieces ++
    order.1.flatMap headerPieces ++ [ascii "\r\n", res.body_]

theorem foldlM_appendHeader (headers : List HeaderLine) (output : Buffer) :
    headers.foldlM appendHeader output =
      output.appendAll (headers.flatMap headerPieces) := by
  induction headers generalizing output with
  | nil => rfl
  | cons header headers ih =>
      rw [List.foldlM_cons, List.flatMap_cons, appendAll_append]
      have hheader : appendHeader output header =
          output.appendAll (headerPieces header) := by
        unfold appendHeader headerPieces
        simp only [appendAll_cons, appendAll_nil, bind_pure]
      rw [hheader]
      exact congrArg _ (funext ih)

theorem appendToBuffer_eq (res : HttpResponse) (order : Traversal res.headers_)
    (output : Buffer) :
    res.appendToBuffer order output = output.appendAll (res.pieces order) := by
  unfold appendToBuffer pieces connectionPieces
  simp only [foldlM_appendHeader]
  cases res.closeConnection_ <;>
    simp [appendAll_cons, appendAll_append]

/-- The length of the text does not depend on the order of the headers. -/
theorem sum_length_pieces {res : HttpResponse} (order : Traversal res.headers_)
    {lines : List HeaderLine} (hlines : headerLines res.headers_ = lines) :
    ((res.pieces order).map List.length).sum =
      (([res.statusStart, res.statusMessage_, ascii "\r\n"] ++ res.connectionPieces ++
        lines.flatMap headerPieces ++ [ascii "\r\n", res.body_]).map List.length).sum := by
  have hperm : order.1.Perm lines := by
    rw [← Multiset.coe_eq_coe, order.2, hlines]
  have hsum := ((hperm.flatMap_right headerPieces).map List.length).sum_eq
  unfold pieces
  simp only [List.map_append, List.sum_append, hsum]

end HttpResponse

end MyFileServer
