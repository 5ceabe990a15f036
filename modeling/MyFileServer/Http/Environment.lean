import MyFileServer.Base.Strings
import MyFileServer.Lib.CallLog

/-!
# The environment of the handler

The calls of the system and of the database that the handler of a request
makes.  Nothing is assumed about how files behave: an answer may depend on
every call made before, so an `Environment` is any file system, also one that
other processes change.  A path goes to the system as a C string.
-/

namespace MyFileServer

open CallLog

inductive FileKind
  | directory
  | regular
  | other
  deriving DecidableEq, Repr

/-- What the handler reads of `struct stat`. -/
structure FileStatus where
  kind : FileKind
  st_size : ℕ
  size_lt : st_size < 2 ^ 63
  deriving DecidableEq

abbrev Off64 := {i : ℤ // -2 ^ 63 ≤ i ∧ i < 2 ^ 63}

theorem off64_of_lt {n : ℕ} (hn : n < 2 ^ 63) : -2 ^ 63 ≤ (n : ℤ) ∧ (n : ℤ) < 2 ^ 63 := by
  omega

theorem off64_zero : -2 ^ 63 ≤ (0 : ℤ) ∧ (0 : ℤ) < 2 ^ 63 := by
  decide

/-- `d_name` of a directory entry. -/
abbrev EntryName := {name : Bytes // name ≠ [] ∧ chr '/' ∉ name ∧ 0 ∉ name}

inductive SysCall
  | stat (path : Bytes)
  | openFile (path : Bytes)
  | opendir (path : Bytes)
  /-- `closedir` on the stream that was opened for the path. -/
  | closedir (path : Bytes)
  | ifstream (path : Bytes)
  /-- Opening creates the file or truncates it. -/
  | ofstream (path : Bytes) (opened : Bool)
  | write (path content : Bytes)
  | remove (path : Bytes)
  | lseek (fd offset : ℤ)
  | update (sql : Bytes)
  deriving DecidableEq

/-- The answers; the last two fields are what memory holds where a variable
of the code is not initialised. -/
structure Environment where
  status : List SysCall → Bytes → Option FileStatus := fun _ _ => none
  descriptor : List SysCall → Bytes → ℤ := fun _ _ => -1
  entries : List SysCall → Bytes → Option (List EntryName) := fun _ _ => none
  content : List SysCall → Bytes → Option Bytes := fun _ _ => none
  creates : List SysCall → Bytes → Bool := fun _ _ => false
  inserts : List SysCall → Bytes → Bool := fun _ _ => false
  staleBytes : List SysCall → Fin 100 → UInt8 := fun _ _ => 0
  staleSize : List SysCall → Off64 := fun _ => ⟨0, off64_zero⟩

abbrev Sys := Traced SysCall Fault

namespace Environment

variable (env : Environment)

/-- An array of 100 bytes before it is written. -/
def staleArray (before : List SysCall) : Bytes :=
  List.ofFn (env.staleBytes before)

def stat (path : Bytes) : Sys (Option FileStatus) :=
  perform (fun before => env.status before (cstr path)) fun _ => .stat path

def openFile (path : Bytes) : Sys ℤ :=
  perform (fun before => env.descriptor before (cstr path)) fun _ => .openFile path

def opendir (path : Bytes) : Sys (Option (List EntryName)) :=
  perform (fun before => env.entries before (cstr path)) fun _ => .opendir path

def ifstream (path : Bytes) : Sys (Option Bytes) :=
  perform (fun before => env.content before (cstr path)) fun _ => .ifstream path

def ofstream (path : Bytes) : Sys Bool :=
  perform (fun before => env.creates before (cstr path)) (.ofstream path)

def update (sql : Bytes) : Sys Bool :=
  perform (fun before => env.inserts before sql) fun _ => .update sql

end Environment

def writeFile (path content : Bytes) : Sys Unit :=
  perform (fun _ => ()) fun _ => .write path content

def removeFile (path : Bytes) : Sys Unit :=
  perform (fun _ => ()) fun _ => .remove path

def closedir (path : Bytes) : Sys Unit :=
  perform (fun _ => ()) fun _ => .closedir path

def lseek (fd offset : ℤ) : Sys Unit :=
  perform (fun _ => ()) fun _ => .lseek fd offset

/-- The path that a call names. -/
def SysCall.path? : SysCall → Option Bytes
  | .stat path | .openFile path | .opendir path | .ifstream path
  | .ofstream path _ | .write path _ | .remove path => some (cstr path)
  | .closedir _ | .lseek _ _ | .update _ => none

end MyFileServer
