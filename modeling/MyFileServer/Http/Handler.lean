import MyFileServer.Http.FileListing
import MyFileServer.Http.HttpResponse

/-!
# The handler of a request

`setResponseBody` looks for the work path followed by the path of the request.
When there is no such file, one or two characters of the path choose a route.
Each route is a function of its own here; `onRequest` sends what they build.
-/

namespace MyFileServer

open Execution CallLog

/-! ## Types of files -/

def defaultType : Bytes := ascii "text/html;charset=utf-8"
def plainType : Bytes := ascii "text/plain;charset=utf-8"

def mime : List (Bytes × Bytes) :=
  [(ascii ".html", defaultType),
    (ascii ".avi", ascii "video/avi"),
    (ascii ".flv", ascii "video/flv"),
    (ascii ".mp4", ascii "video/mp4"),
    (ascii ".bmp", ascii "image/bmp"),
    (ascii ".doc", ascii "application/msword"),
    (ascii ".gif", ascii "image/gif"),
    (ascii ".gz", ascii "application/x-gzip"),
    (ascii ".htm", defaultType),
    (ascii ".ico", ascii "image/x-icon"),
    (ascii ".jpg", ascii "image/jpeg"),
    (ascii ".png", ascii "image/png"),
    (ascii ".txt", plainType),
    (ascii ".mp3", ascii "audio/mp3"),
    (ascii ".cc", plainType),
    (ascii ".hpp", plainType),
    (ascii ".h", plainType),
    (ascii ".cpp", plainType),
    (ascii ".c", plainType),
    (ascii ".sh", plainType),
    (ascii ".py", plainType),
    (ascii ".md", plainType),
    (ascii "default", defaultType)]

def getMime (suffix : Bytes) : Bytes :=
  (mime.lookup suffix).getD defaultType

def suffixOf (path : Bytes) : Bytes :=
  let pos := findLastOf path (chr '.')
  if pos ≠ npos then path.drop pos else []

/-! ## Files under the work path -/

def sendHtml (code : HttpStatusCode) (html : Bytes) (res : HttpResponse) :
    HttpResponse :=
  ((res.setStatusCode code).setContentType (ascii "text/html;charset=utf-8")).setBody
    html

def showPath (path : Bytes) : Bytes :=
  if path.head? = some (chr '.') then path.tail else path

def sendDirectory (env : Environment) (req : HttpRequest) (path : Bytes)
    (res : HttpResponse) : Sys HttpResponse :=
  if (cstr req.path_).length = 1 then
    pure (sendHtml .k200Ok welcomePage res)
  else do
    scanDir env path
    let html ← getFileListPage env (showPath path) req.path_
    pure (sendHtml .k200Ok html res)

/-- Arithmetic of type `off64_t`. -/
def off64 (i : ℤ) : ℤ := Int.bmod i (2 ^ 64)

/-- `beg_num` and `end_num` for the value of a `Range` header. -/
def parseRange (range : Bytes) (len : ℤ) : Exec (ℤ × ℤ) := do
  let range_value ← substr range 6
  let pos := find range_value (ascii "-")
  let beg := range_value.take pos
  let end_ ← substr range_value (addSizeT pos 1)
  if beg ≠ [] ∧ end_ ≠ [] then
    return (← stoi beg, ← stoi end_)
  else if beg ≠ [] then
    return (← stoi beg, len - 1)
  else if end_ ≠ [] then
    return (off64 (len - (← stoi end_)), len - 1)
  else
    return (0, 0)

def sendRange (range : Bytes) (len fd : ℤ) (res : HttpResponse) :
    Sys HttpResponse := do
  let res := (res.setStatusCode .k206Partitial).setStatusMessage (ascii "Partial Content")
  let bounds ← lift (parseRange range len)
  let beg_num := bounds.1
  let need_len := off64 (bounds.2 - beg_num + 1)
  let end_num := off64 (beg_num + need_len - 1)
  lseek fd beg_num
  -- `static_cast<int>`
  let res := res.setSendLen (Int.bmod need_len (2 ^ 32))
  let res := res.addHeader (ascii "Content-Range")
    (ascii "bytes " ++ to_string beg_num ++ ascii "-" ++ to_string end_num ++
      ascii "/" ++ to_string len)
  return res.addHeader (ascii "Content-Length") (to_string need_len)

def sendWhole (len : ℤ) (res : HttpResponse) : HttpResponse :=
  (((res.setStatusCode .k200Ok).setStatusMessage (ascii "OK")).setSendLen
    len).addHeader (ascii "Content-Length") (to_string len)

/-- The descriptor and the headers that both routes to a file set. -/
def describeFile (fd : ℤ) (req : HttpRequest) (res : HttpResponse) : HttpResponse :=
  ((res.setFd fd).setContentType (getMime (suffixOf req.path_))).addHeader
    (ascii "Accept-Ranges") (ascii "bytes")

def sendRegular (env : Environment) (req : HttpRequest) (path : Bytes)
    (len : ℤ) (res : HttpResponse) : Sys HttpResponse := do
  let fd ← env.openFile path
  let res := describeFile fd req res
  let range := req.getHeader (ascii "Range")
  if range ≠ [] then
    sendRange range len fd res
  else
    pure (sendWhole len res)

def sendExisting (env : Environment) (req : HttpRequest) (path : Bytes)
    (buffer : FileStatus) (res : HttpResponse) : Sys HttpResponse :=
  match buffer.kind with
  | .directory => sendDirectory env req path res
  | .regular => sendRegular env req path buffer.st_size res
  | .other =>
      pure (sendHtml .k404NotFound (get404Html (ascii "This is not a regular file."))
        res)

/-! ## Accounts -/

abbrev Users := Finmap fun _ : Bytes => Bytes

structure FileServer where
  workPath_ : Bytes
  users : Users := ∅

/-- The loop that copies `rest` into an array of 100 bytes up to the stop
byte and ends the copy with NUL.  Behind the last byte it reads NUL, and a
loop that does not stop there goes on to read outside the string. -/
def copyUntil (stop : UInt8) : Bytes → Bytes → Exec Bytes
  | copied, [] =>
      if stop = 0 ∧ copied.length < 100 then return copied else throw .outOfRange
  | copied, c :: rest =>
      if copied.length < 100 then
        if c = stop then return copied else copyUntil stop (copied ++ [c]) rest
      else
        throw .outOfRange

def copyField (stop : UInt8) (m_string : Bytes) (i : ℕ) : Exec Bytes :=
  if i ≤ m_string.length then copyUntil stop [] (m_string.drop i)
  else throw .outOfRange

/-- `name` and `password` as C strings. -/
def accountForm (m_string : Bytes) : Exec (Bytes × Bytes) := do
  let name ← copyField (chr '&') m_string 5
  let password ← copyField 0 m_string (5 + name.length + 10)
  return (cstr name, password)

/-- The statement in the 200 bytes of `sql_insert`. -/
def sqlInsert (name password : Bytes) : Exec Bytes :=
  let sql := ascii "INSERT INTO login(user, password) VALUES(" ++ ascii "'" ++
    name ++ ascii "', '" ++ password ++ ascii "')"
  if sql.length < 200 then return sql else throw .outOfRange

/-- `std::map::insert` leaves an entry that is there. -/
def Users.add (users : Users) (name password : Bytes) : Users :=
  if name ∈ users then users else users.insert name password

def register (env : Environment) (server : FileServer) (name password : Bytes)
    (res : HttpResponse) : Sys (FileServer × HttpResponse) := do
  let sql ← lift (sqlInsert name password)
  let ins ← env.update sql
  let server := { server with users := Users.add server.users name password }
  pure (server, sendHtml .k200Ok (if ins then signInPage else nameTakenPage) res)

def login (env : Environment) (server : FileServer) (name password : Bytes)
    (res : HttpResponse) : Sys HttpResponse :=
  if server.users.lookup name = some password then do
    let html ← getRootListPage env server.workPath_
    pure (sendHtml .k200Ok html res)
  else
    pure (sendHtml .k200Ok wrongPasswordPage res)

/-! ## Files that the request names -/

def downloadPath (path m_url : Bytes) : Exec Bytes := do
  let dl_path := path.take (toSizeT (toInt (find path (ascii "download"))))
  let dl_url ← substr m_url 10
  return dl_path ++ dl_url

/-- `st_size` of a variable that a failed `stat` has left alone. -/
def statSize (env : Environment) (path : Bytes) : Sys ℤ := do
  let before ← history
  match ← env.stat path with
  | some buffer => pure buffer.st_size
  | none => pure (env.staleSize before).1

def download (env : Environment) (req : HttpRequest) (path : Bytes)
    (res : HttpResponse) : Sys HttpResponse := do
  let download_path ← lift (downloadPath path req.path_)
  let len ← statSize env download_path
  let fd ← env.openFile download_path
  let f_name :=
    download_path.drop (addSizeT (findLastOf download_path (chr '/')) 1)
  pure (sendWhole len ((describeFile fd req res).setDisposition f_name))

def dashes : Bytes := List.replicate 17 (chr '-')

def uploadContent (body : Bytes) : Bytes :=
  body.take (toSizeT (toInt (find body dashes)))

/-- `path_u`, the directory of the upload. -/
def uploadDir (path : Bytes) (req : HttpRequest) : Bytes :=
  let content_type := req.getHeader (ascii "Content-Type")
  let f_url := path.take (toSizeT (toInt (find path req.path_)))
  if content_type = ascii "image/jpeg" ∨ content_type = ascii "image/png" then
    f_url ++ ascii "/img/"
  else
    f_url ++ ascii "/text/"

def uploadName (req : HttpRequest) : Exec Bytes := do
  let disposition := req.getHeader (ascii "Content-Disposition")
  let n := toInt (find disposition (ascii "filename="))
  let f_name ← substr disposition (toSizeT (n + 10))
  return f_name.dropLast

def storeFile (env : Environment) (path content : Bytes) : Sys Unit := do
  if ← env.ofstream path then
    writeFile path content
  else
    pure ()

def upload (env : Environment) (req : HttpRequest) (path : Bytes)
    (res : HttpResponse) : Sys HttpResponse := do
  let content := uploadContent req.m_string
  let path_u := uploadDir path req
  let f_name ← lift (uploadName req)
  storeFile env (path_u ++ f_name) content
  scanDir env path_u
  pure (sendHtml .k200Ok uploadedPage res)

def deletePath (path m_url : Bytes) : Exec Bytes := do
  let dl_path := path.take (toSizeT (toInt (find path (ascii "delete"))))
  let dl_url ← substr m_url 8
  return dl_path ++ dl_url

/-- `path_d`, the path up to its last slash. -/
def parentDir (download_path : Bytes) : Bytes :=
  let n_u := toInt (findLastOf download_path (chr '/'))
  download_path.take (toSizeT (n_u + 1))

def delete (env : Environment) (req : HttpRequest) (path : Bytes)
    (res : HttpResponse) : Sys HttpResponse := do
  let download_path ← lift (deletePath path req.path_)
  let _ ← env.stat download_path
  removeFile download_path
  scanDir env (parentDir download_path)
  pure (sendHtml .k200Ok deletedPage res)

/-! ## Routes -/

inductive Route
  | signUp
  | signIn
  | login
  | register
  | download
  | upload
  | delete
  | notFound
  deriving DecidableEq, Repr

/-- The tests of `m_url[1]` and `m_url[2]` in their order.  The second
character is read only behind a `d`, where it is inside the string. -/
def routeOf (m_url : Bytes) : Exec Route := do
  let first ← charAt m_url 1
  let second := m_url.getD 2 0
  if first = chr '0' then return .signUp
  else if first = chr '1' then return .signIn
  else if first = chr '2' then return .login
  else if first = chr '3' then return .register
  else if first = chr 'd' ∧ second = chr 'o' then return .download
  else if first = chr 'u' then return .upload
  else if first = chr 'd' ∧ second = chr 'e' then return .delete
  else return .notFound

def takeRoute (env : Environment) (server : FileServer) (req : HttpRequest)
    (path : Bytes) (res : HttpResponse) : Route → Sys (FileServer × HttpResponse)
  | .signUp => pure (server, sendHtml .k200Ok signUpPage res)
  | .signIn => pure (server, sendHtml .k200Ok signInPage res)
  | .login => do
      let form ← lift (accountForm req.m_string)
      return (server, ← login env server form.1 form.2 res)
  | .register => do
      let form ← lift (accountForm req.m_string)
      register env server form.1 form.2 res
  | .download => return (server, ← download env req path res)
  | .upload => return (server, ← upload env req path res)
  | .delete => return (server, ← delete env req path res)
  | .notFound =>
      pure (server, sendHtml .k404NotFound (get404Html (ascii "File not found.")) res)

def setResponseBody (env : Environment) (server : FileServer) (req : HttpRequest)
    (res : HttpResponse) : Sys (FileServer × HttpResponse) := do
  let path ← lift (concat server.workPath_ req.path_)
  match ← env.stat path with
  | some buffer => return (server, ← sendExisting env req path buffer res)
  | none => do
      let route ← lift (routeOf req.path_)
      takeRoute env server req path res route

/-! ## The request -/

def HttpRequest.wantsClose (req : HttpRequest) : Bool :=
  let connection := req.getHeader (ascii "Connection")
  connection = ascii "close" ||
    (req.version_ = .kHttp10 && connection ≠ ascii "Keep-Alive")

/-- The calls of the connection. -/
inductive ConnAction
  | send (payload : Bytes)
  | sendFile (fd : ℤ) (count : ℕ)
  | shutdown
  deriving DecidableEq

/-- What `onRequest` does before it writes the response. -/
def buildResponse (env : Environment) (server : FileServer) (req : HttpRequest) :
    Sys (FileServer × HttpResponse) :=
  let response : HttpResponse := { closeConnection_ := req.wantsClose }
  if req.path_ = ascii "/favicon.ico" then
    let response := (response.setStatusCode .k200Ok).setStatusMessage (ascii "OK")
    pure (server, (response.setContentType (ascii "image/png")).setBody favicon)
  else
    setResponseBody env server req response

/-- `sendFile` for the descriptor of the response, which comes with a length. -/
def fileActions (response : HttpResponse) : List ConnAction :=
  if response.needSendFile then
    [.sendFile response.fd_ (toSizeT (response.len_.getD 0))]
  else
    []

def sendResponse (order : (headers : Headers) → Traversal headers)
    (response : HttpResponse) : Exec (List ConnAction) := do
  let buf ← response.appendToBuffer (order response.headers_) Buffer.initial
  return .send buf.readable :: fileActions response ++
    if response.closeConnection_ then [.shutdown] else []

def onRequest (env : Environment) (order : (headers : Headers) → Traversal headers)
    (server : FileServer) (req : HttpRequest) :
    Sys (FileServer × List ConnAction) := do
  let built ← buildResponse env server req
  let actions ← lift (sendResponse order built.2)
  return (built.1, actions)

end MyFileServer
