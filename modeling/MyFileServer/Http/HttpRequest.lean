import MyFileServer.Base.Timestamp
import MyFileServer.Net.Buffer
import Mathlib.Data.Finmap
import Mathlib.Data.List.DropRight

/-!
# The request

The fields of `HttpRequest` and the functions that write them.  A range of
bytes `[start, end)` that the code passes as two pointers is the list of its
bytes; `std::find` over it is `List.idxOf`, which gives the length when the
character is absent, as `std::find` gives the end.
-/

namespace MyFileServer

open Execution

/-- `std::unordered_map<std::string, std::string>`; nothing that reads the
headers of a request depends on their order. -/
abbrev Headers := Finmap fun _ : Bytes => Bytes

inductive Method
  | kInvalid | kGet | kPost | kHead | kPut | kDelete
  deriving DecidableEq, Repr

inductive Version
  | kUnknown | kHttp10 | kHttp11
  deriving DecidableEq, Repr

structure HttpRequest where
  method_ : Method := .kInvalid
  m_string : Bytes := []
  version_ : Version := .kUnknown
  path_ : Bytes := []
  query_ : Bytes := []
  receiveTime_ : Timestamp := {}
  headers_ : Headers := ∅
  deriving DecidableEq

namespace HttpRequest

def methodOf (m : Bytes) : Method :=
  if m = ascii "GET" then .kGet
  else if m = ascii "POST" then .kPost
  else if m = ascii "HEAD" then .kHead
  else if m = ascii "PUT" then .kPut
  else if m = ascii "DELETE" then .kDelete
  else .kInvalid

def setMethod (req : HttpRequest) (m : Bytes) : Bool × HttpRequest :=
  let method := methodOf m
  (method ≠ .kInvalid, { req with method_ := method })

def setVersion (req : HttpRequest) (v : Version) : HttpRequest :=
  { req with version_ := v }

def setPath (req : HttpRequest) (path : Bytes) : HttpRequest :=
  { req with path_ := path }

def setQuery (req : HttpRequest) (query : Bytes) : HttpRequest :=
  { req with query_ := query }

def setReceiveTime (req : HttpRequest) (t : Timestamp) : HttpRequest :=
  { req with receiveTime_ := t }

def trim (text : Bytes) : Bytes :=
  (text.dropWhile isspace).rdropWhile isspace

/-- `addHeader(start, colon, end)` for the line `[start, end)` and the offset
of the colon in it. -/
def addHeader (req : HttpRequest) (line : Bytes) (colon : ℕ) : HttpRequest :=
  let field := line.take colon
  let value := trim (line.drop (colon + 1))
  { req with headers_ := req.headers_.insert field value }

/-- `headers_[key]`, which inserts an empty value when there is none. -/
def headerAt (req : HttpRequest) (key : Bytes) : Bytes × HttpRequest :=
  match req.headers_.lookup key with
  | some value => (value, req)
  | none => ([], { req with headers_ := req.headers_.insert key [] })

/-- `addcontent(start)` where `start` is an index into the vector of `buf`.
The trace output reads three bytes at `start`; `assign` throws on a negative
length. -/
def addcontent (region : Buffer.Region) (req : HttpRequest) (buf : Buffer)
    (start : ℕ) : Exec HttpRequest := do
  let (l, req) := req.headerAt (ascii "Content-Length")
  let len := atoi l
  let _ ← buf.load region start 1
  let _ ← buf.load region (start + 1) 1
  let _ ← buf.load region (start + 2) 1
  if len < 0 then
    throw .lengthError
  else
    let content ← buf.load region start len.toNat
    return { req with m_string := content }

def getHeader (req : HttpRequest) (field : Bytes) : Bytes :=
  (req.headers_.lookup field).getD []

/-- `swap(rhs)`: both requests after the exchange.  `m_string` is not among
the fields that are exchanged. -/
def swap (req rhs : HttpRequest) : HttpRequest × HttpRequest :=
  ({ req with
      method_ := rhs.method_
      version_ := rhs.version_
      path_ := rhs.path_
      query_ := rhs.query_
      receiveTime_ := rhs.receiveTime_
      headers_ := rhs.headers_ },
   { rhs with
      method_ := req.method_
      version_ := req.version_
      path_ := req.path_
      query_ := req.query_
      receiveTime_ := req.receiveTime_
      headers_ := req.headers_ })

end HttpRequest

end MyFileServer
