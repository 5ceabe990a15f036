import MyFileServer.Http.Environment
import MyFileServer.Http.Pages

/-!
# Directories and the page that lists them

`scanDir` looks at every entry of a directory under a name that it builds in
an array of 100 bytes; its text is not used by any caller.  The page of a
directory is the file `html/filelist.html` with one row for each entry in the
place of the label line.
-/

namespace MyFileServer

open Execution CallLog Window

def dot : Bytes := ascii "."
def dotdot : Bytes := ascii ".."

/-- `fullname[n - 1]`, which is outside the array for `n = 0`. -/
def charBefore (fullname : Bytes) : ℕ → Exec UInt8
  | 0 => throw .outOfRange
  | n + 1 => arrayGet fullname n

/-- The path and a slash in `fullname`, and the index after them. -/
def scanStart (fullname path : Bytes) : Exec (Bytes × ℕ) := do
  let n := path.length
  let fullname ← strcpy fullname 0 (cstr path)
  let last ← charBefore fullname n
  if last ≠ chr '/' then
    let fullname ← arrayPut fullname n [chr '/', 0]
    return (fullname, n + 1)
  else
    return (fullname, n)

/-- The loop over the entries; each name is copied behind the path. -/
def scanEntries (env : Environment) (n : ℕ) :
    Bytes → List EntryName → Sys Unit
  | _, [] => pure ()
  | fullname, entry :: entries =>
      if entry.1 = dot ∨ entry.1 = dotdot then
        scanEntries env n fullname entries
      else do
        let fullname ← lift (strcpy fullname n entry.1)
        let _ ← env.stat fullname
        scanEntries env n fullname entries

def scanDir (env : Environment) (path : Bytes) : Sys Unit := do
  let before ← history
  let start ← lift (scanStart (env.staleArray before) path)
  match ← env.opendir path with
  | none => pure ()
  | some entries => do
      scanEntries env start.2 start.1 entries
      closedir path

/-- `readdir` on the null pointer when the directory cannot be opened, and no
`closedir` at the end. -/
def getFileVec (env : Environment) (dirName : Bytes) : Sys (List Bytes) := do
  match ← env.opendir dirName with
  | none => lift (.error .nullPointer)
  | some entries =>
      pure ((entries.map (·.1)).filter fun name => name ≠ dot ∧ name ≠ dotdot)

/-! ## The template -/

/-- The unread part of the file, and whether the stream is still good. -/
structure Ifstream where
  rest : Bytes
  good : Bool

def Ifstream.ofFile : Option Bytes → Ifstream
  | some content => ⟨content, true⟩
  | none => ⟨[], false⟩

/-- Whether the stream has not failed, the line, and the stream after it.  A
stream that is not good leaves the line as it was. -/
def getline (stream : Ifstream) (line : Bytes) : Bool × Bytes × Ifstream :=
  if stream.good then
    let next := stream.rest.takeWhile (· ≠ chr '\n')
    if next.length = stream.rest.length then
      (next ≠ [], next, ⟨[], false⟩)
    else
      (true, next, ⟨stream.rest.drop (next.length + 1), true⟩)
  else
    (false, line, stream)

def filelistLabel : Bytes := ascii "<!--filelist_label-->"

/-- The loop that only the label line leaves. -/
def beforeLabel : ℕ → Ifstream → Bytes → Bytes → Exec (Ifstream × Bytes × Bytes)
  | 0, _, _, _ => throw .diverges
  | fuel + 1, stream, tempLine, html =>
      let (_, tempLine, stream) := getline stream tempLine
      if tempLine = filelistLabel then
        return (stream, tempLine, html)
      else
        beforeLabel fuel stream tempLine (html ++ tempLine ++ [chr '\n'])

def afterLabel : ℕ → Ifstream → Bytes → Bytes → Exec Bytes
  | 0, _, _, _ => throw .diverges
  | fuel + 1, stream, tempLine, html =>
      let (ok, tempLine, stream) := getline stream tempLine
      if ok then
        afterLabel fuel stream tempLine (html ++ tempLine ++ [chr '\n'])
      else
        return html

/-- The template with `rows` in the place of the label.  Each round of a loop
reads a byte, or brings the stream to its end or leaves it there. -/
def fillTemplate (file : Option Bytes) (rows : Bytes) : Exec Bytes := do
  let stream := Ifstream.ofFile file
  let (stream, tempLine, html) ← beforeLabel (stream.rest.length + 2) stream [] []
  afterLabel (stream.rest.length + 2) stream tempLine (html ++ rows)

def filelistPath : Bytes := ascii "html/filelist.html"

def fileListPage (env : Environment) (dirName : Bytes) (row : Bytes → Bytes) :
    Sys Bytes := do
  let fileVec ← getFileVec env dirName
  let file ← env.ifstream filelistPath
  lift (fillTemplate file (fileVec.flatMap row))

def linkedRow (m_url filename : Bytes) : Bytes :=
  utf8 "            <tr><td class=\"col1\"><a href=" ++ m_url ++ utf8 "/" ++
    filename ++ utf8 ">" ++ filename ++
    utf8 "</a></td> <td class=\"col2\"><a href=\"download" ++ m_url ++ utf8 "/" ++
    filename ++ utf8 "\">下载</a></td> <td class=\"col3\"><a href=\"delete" ++
    m_url ++ utf8 "/" ++ filename ++
    utf8 "\" onclick=\"return confirmDelete();\">删除</a></td></tr>" ++ utf8 "\n"

def plainRow (filename : Bytes) : Bytes :=
  utf8 "            <tr><td class=\"col1\"><a href=" ++ filename ++ utf8 ">" ++
    filename ++
    utf8 "</a></td> <td class=\"col2\"></td> <td class=\"col3\"></td></tr>" ++
    utf8 "\n"

/-- The overload with a URL. -/
def getFileListPage (env : Environment) (workPath_ m_url : Bytes) : Sys Bytes :=
  fileListPage env workPath_ (linkedRow m_url)

/-- The overload for the work path, whose rows have no links to files. -/
def getRootListPage (env : Environment) (workPath_ : Bytes) : Sys Bytes :=
  fileListPage env workPath_ plainRow

end MyFileServer
