import MyFileServer.Http.FileServer

/-!
# Well-formed heads

A `RequestHead` is a request line and lines with a colon; its text ends with
the empty line.  The parser reads it as the request line and the fields say.
-/

namespace MyFileServer

open Execution Delimiter Buffer

theorem addFields_eq (req : HttpRequest) (fields : List Bytes) :
    addFields req fields =
      { req with headers_ := (addFields req fields).headers_ } := by
  induction fields generalizing req with
  | nil => rfl
  | cons field fields ih => exact ih (addField req field)

structure RequestHead where
  line : RequestLine
  fields : List Bytes
  line_free : Free kCRLF line.text
  fields_free : ∀ field ∈ fields, Free kCRLF field
  fields_colon : ∀ field ∈ fields, IsField field

namespace RequestHead

def text (head : RequestHead) : Bytes :=
  head.line.text ++ kCRLF ++ (frame kCRLF head.fields ++ kCRLF)

def request (head : RequestHead) (req : HttpRequest) (t : Timestamp) :
    HttpRequest :=
  (addFields (head.line.read req) head.fields).setReceiveTime t

theorem closed (head : RequestHead) (rest : Bytes) :
    ClosedBlock kCRLF IsField (frame kCRLF head.fields ++ kCRLF ++ rest)
      head.fields [] rest where
  text_eq := by simp
  lines_free := head.fields_free
  lines_keep := head.fields_colon
  last_free := free_nil kCRLF_ne_nil
  last_refused := by simp [IsField]

theorem headEnds (head : RequestHead) (t : Timestamp) (req : HttpRequest)
    (rest : Bytes) :
    HeadEnds t ⟨.kExpectRequestLine, req⟩ (head.text ++ rest)
      true (head.request req t) rest := by
  have htext : head.text ++ rest =
      head.line.text ++ kCRLF ++ (frame kCRLF head.fields ++ kCRLF ++ rest) := by
    simp [text, List.append_assoc]
  rw [htext]
  exact headEnds_of_requestLine t head.line_free
    (processRequestLine_text head.line req) (head.closed rest)

@[simp] theorem request_method_ (head : RequestHead) (req : HttpRequest)
    (t : Timestamp) : (head.request req t).method_ = head.line.method := by
  unfold request
  rw [addFields_eq]
  exact head.line.read_method_ req

@[simp] theorem request_path_ (head : RequestHead) (req : HttpRequest)
    (t : Timestamp) : (head.request req t).path_ = head.line.path := by
  unfold request
  rw [addFields_eq]
  exact head.line.read_path_ req

theorem text_ne_nil (head : RequestHead) : head.text ≠ [] := by
  simp [text, kCRLF]

theorem headWaits_of_short (head : RequestHead) {text more rest : Bytes}
    (htext : text ++ more = head.text ++ rest)
    (hshort : rest.length < more.length) (req : HttpRequest) (t : Timestamp) :
    ∃ ok after unread,
      HeadWaits t ⟨.kExpectRequestLine, req⟩ text ok after unread := by
  have hends := head.headEnds t req rest
  rw [← htext] at hends
  exact MyFileServer.headWaits_of_short (.inl rfl) hends hshort t

end RequestHead

end MyFileServer
