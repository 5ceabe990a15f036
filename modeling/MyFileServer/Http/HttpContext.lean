import MyFileServer.Http.HttpRequest

/-!
# The request parser

`parseRequest` is the loop of the code: one iteration per state, the local
`ok` carried along, the buffer advanced in place.  A run of the loop is given
fuel; `parseLoop_add` shows that more fuel does not change how a run ends,
and a loop that never leaves is the fault `diverges`.

The argument `region` says what a read is checked against.  The code runs
with `.storage`: a read outside the readable region that stays inside the
vector returns whatever the vector holds there.
-/

namespace MyFileServer

open Execution

inductive HttpRequestParseState
  | kExpectRequestLine
  | kExpectHeaders
  | kExpectBody
  | kGotAll
  deriving DecidableEq, Repr

structure HttpContext where
  state_ : HttpRequestParseState := .kExpectRequestLine
  request_ : HttpRequest := {}
  deriving DecidableEq

/-- `processRequestLine` on the bytes of the line.  The fields are set as the
line is read, also when it is refused in the end. -/
def processRequestLine (req : HttpRequest) (line : Bytes) : Bool × HttpRequest :=
  let space := line.idxOf (chr ' ')
  if space = line.length then
    (false, req)
  else
    let (known, req) := req.setMethod (line.take space)
    if !known then
      (false, req)
    else
      -- from here on `line` starts after the blank
      let line := line.drop (space + 1)
      let space := line.idxOf (chr ' ')
      if space = line.length then
        (false, req)
      else
        let target := line.take space
        let question := target.idxOf (chr '?')
        let req :=
          if question ≠ target.length then
            (req.setPath (target.take question)).setQuery (target.drop question)
          else
            req.setPath target
        let line := line.drop (space + 1)
        if line.length = 8 ∧ line.take 7 = ascii "HTTP/1." then
          if line.getLast? = some (chr '1') then
            (true, req.setVersion .kHttp11)
          else if line.getLast? = some (chr '0') then
            (true, req.setVersion .kHttp10)
          else
            (false, req)
        else
          (false, req)

namespace HttpContext

def gotAll (context : HttpContext) : Bool :=
  context.state_ = .kGotAll

def reset (context : HttpContext) : HttpContext :=
  { state_ := .kExpectRequestLine
    request_ := (context.request_.swap {}).1 }

end HttpContext

/-- The `do` loop over the headers of a part.  `findCRLF` may give the null
pointer here, and the code goes on to use it. -/
def partHeaders (region : Buffer.Region) :
    ℕ → HttpRequest → Buffer → Exec (HttpRequest × Buffer)
  | 0, _, _ => throw .diverges
  | fuel + 1, req, buf =>
      match buf.findCRLF with
      | none => throw .nullPointer
      | some crlf => do
          let line ← buf.load region buf.peek (crlf - buf.peek)
          let colon := line.idxOf (chr ':')
          if colon ≠ line.length then
            let _ ← buf.load region buf.peek 1
            partHeaders region fuel (req.addHeader line colon)
              (buf.retrieveUntil (crlf + 2))
          else
            return (req, buf.retrieveUntil (crlf + 2))

/-- The branch `kExpectBody` for the method POST. -/
def parseBody (region : Buffer.Region) (req : HttpRequest) (buf : Buffer) :
    Exec (HttpRequest × Buffer) := do
  let first ← buf.load region buf.peek 1
  if first = [chr '-'] then
    match buf.findCRLF with
    | none => throw .nullPointer
    | some crlf =>
        let buf := buf.retrieveUntil (crlf + 2)
        let _ ← buf.load region buf.peek 1
        let (req, buf) ← partHeaders region (buf.readableBytes + 1) req buf
        let _ ← buf.load region buf.peek 1
        let req ← req.addcontent region buf buf.peek
        return (req, buf)
  else
    let req ← req.addcontent region buf buf.peek
    return (req, buf)

structure ParseLoop where
  context : HttpContext
  buf : Buffer
  ok : Bool := false
  hasMore : Bool := true

def parseStep (region : Buffer.Region) (receiveTime : Timestamp)
    (s : ParseLoop) : Exec ParseLoop :=
  match s.context.state_ with
  | .kExpectRequestLine =>
      match s.buf.findCRLF with
      | some crlf => do
          let line ← s.buf.load region s.buf.peek (crlf - s.buf.peek)
          let (ok, request) := processRequestLine s.context.request_ line
          if ok then
            return {
              context := {
                state_ := .kExpectHeaders
                request_ := request.setReceiveTime receiveTime }
              buf := s.buf.retrieveUntil (crlf + 2)
              ok := true
              hasMore := s.hasMore }
          else
            return { s with
              context := { s.context with request_ := request }
              ok := false
              hasMore := false }
      | none => return { s with hasMore := false }
  | .kExpectHeaders =>
      match s.buf.findCRLF with
      | some crlf => do
          let line ← s.buf.load region s.buf.peek (crlf - s.buf.peek)
          let colon := line.idxOf (chr ':')
          let context :=
            if colon ≠ line.length then
              { s.context with request_ := s.context.request_.addHeader line colon }
            else
              { s.context with state_ := .kExpectBody }
          return { s with context, buf := s.buf.retrieveUntil (crlf + 2) }
      | none => return { s with hasMore := false }
  | .kExpectBody => do
      let (request, buf) ←
        if s.context.request_.method_ = .kPost then
          parseBody region s.context.request_ s.buf
        else
          pure (s.context.request_, s.buf)
      return { s with
        context := { state_ := .kGotAll, request_ := request }
        buf
        hasMore := false }
  | .kGotAll => return s

def parseLoop (region : Buffer.Region) (receiveTime : Timestamp) :
    ℕ → ParseLoop → Exec ParseLoop
  | fuel, s =>
      if s.hasMore then
        match fuel with
        | 0 => throw .diverges
        | fuel + 1 => do
            parseLoop region receiveTime fuel (← parseStep region receiveTime s)
      else
        return s

structure Parsed where
  ok : Bool
  context : HttpContext
  buf : Buffer

def parseRequest (region : Buffer.Region) (context : HttpContext)
    (buf : Buffer) (receiveTime : Timestamp) : Exec Parsed := do
  let s ← parseLoop region receiveTime (buf.readableBytes + 1) { context, buf }
  return { ok := s.ok, context := s.context, buf := s.buf }

end MyFileServer
