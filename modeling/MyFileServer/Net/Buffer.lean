import MyFileServer.Base.Runtime
import MyFileServer.Lib.Delimiter
import MyFileServer.Lib.Window

/-!
# The input and output buffer

`Buffer` is a vector of bytes with two indices.  Everything is kept as the
code has it: the stale bytes outside the readable region stay in the vector,
`makeSpace` takes its length as an `int`, and a copy past the end of the
vector is a fault.  Pointers into the vector are indices of it.
-/

namespace MyFileServer

open Window Execution

structure Buffer where
  buffer_ : Bytes
  readerIndex_ : ℕ
  writerIndex_ : ℕ
  deriving DecidableEq, Repr

namespace Buffer

def kCheapPrepend : ℕ := 8

def kInitialSize : ℕ := 1024

def kCRLF : Bytes := [13, 10]

def extrabufSize : ℕ := 65536

/-- `std::vector<char>(n)`. -/
def newStore (n : ℕ) : Exec Bytes :=
  if n ≤ maxSize then .ok (List.replicate n 0) else .error .lengthError

def construct (initialSize : ℕ) : Exec Buffer := do
  let store ← newStore (addSizeT kCheapPrepend initialSize)
  return { buffer_ := store, readerIndex_ := kCheapPrepend, writerIndex_ := kCheapPrepend }

def initial : Buffer where
  buffer_ := List.replicate (kCheapPrepend + kInitialSize) 0
  readerIndex_ := kCheapPrepend
  writerIndex_ := kCheapPrepend

def readableBytes (b : Buffer) : ℕ := b.writerIndex_ - b.readerIndex_

def writableBytes (b : Buffer) : ℕ := b.buffer_.length - b.writerIndex_

def prependableBytes (b : Buffer) : ℕ := b.readerIndex_

def readable (b : Buffer) : Bytes :=
  window b.buffer_ b.readerIndex_ b.writerIndex_

def peek (b : Buffer) : ℕ := b.readerIndex_

def prepend (b : Buffer) (data : Bytes) : Exec Buffer :=
  if data.length ≤ b.readerIndex_ ∧ b.readerIndex_ ≤ b.buffer_.length then
    .ok { b with
      readerIndex_ := b.readerIndex_ - data.length
      buffer_ := overwrite b.buffer_ (b.readerIndex_ - data.length) data }
  else
    .error .outOfRange

def retrieveAll (b : Buffer) : Buffer :=
  { b with readerIndex_ := kCheapPrepend, writerIndex_ := kCheapPrepend }

def retrieve (b : Buffer) (len : ℕ) : Buffer :=
  if len < b.readableBytes then
    { b with readerIndex_ := b.readerIndex_ + len }
  else
    b.retrieveAll

/-- `end` is an index into the vector. -/
def retrieveUntil (b : Buffer) (end_ : ℕ) : Buffer :=
  b.retrieve (end_ - b.peek)

/-- The part of memory that a read is checked against: the readable region,
or all of the vector, which is what the language guarantees. -/
inductive Region
  | readable
  | storage
  deriving DecidableEq, Repr

def limit (b : Buffer) : Region → ℕ
  | .readable => b.writerIndex_
  | .storage => b.buffer_.length

def load (region : Region) (b : Buffer) (i n : ℕ) : Exec Bytes :=
  if b.readerIndex_ ≤ i ∧ i + n ≤ b.limit region then
    .ok (window b.buffer_ i (i + n))
  else
    .error .outOfRange

def retrieveAsString (b : Buffer) (len : ℕ) : Exec (Buffer × Bytes) := do
  let result ← b.load .storage b.peek len
  return (b.retrieve len, result)

/-- Offset of the first CRLF of the readable region, as an index into the
vector; `none` is the null pointer. -/
def findCRLF (b : Buffer) : Option ℕ :=
  let crlf := b.peek + Delimiter.search kCRLF b.readable
  if crlf = b.writerIndex_ then none else some crlf

def resizeStore (b : Buffer) (n : ℕ) : Exec Buffer :=
  if n ≤ maxSize then
    .ok { b with buffer_ := resize b.buffer_ n 0 }
  else
    .error .lengthError

/-- The length is an `int` here, and is converted back by the mixed
arithmetic. -/
def makeSpace (b : Buffer) (len : ℤ) : Exec Buffer :=
  if b.writableBytes + b.prependableBytes < addSizeT (toSizeT len) kCheapPrepend then
    b.resizeStore (addSizeT b.writerIndex_ (toSizeT len))
  else
    let readable := b.readableBytes
    if kCheapPrepend + readable ≤ b.buffer_.length then
      .ok {
        buffer_ := overwrite b.buffer_ kCheapPrepend b.readable
        readerIndex_ := kCheapPrepend
        writerIndex_ := kCheapPrepend + readable }
    else
      .error .outOfRange

def ensureWritableBytes (b : Buffer) (len : ℕ) : Exec Buffer :=
  if b.writableBytes < len then b.makeSpace (toInt len) else .ok b

def append (b : Buffer) (data : Bytes) : Exec Buffer := do
  let b ← b.ensureWritableBytes data.length
  if b.writerIndex_ + data.length ≤ b.buffer_.length then
    return { b with
      buffer_ := overwrite b.buffer_ b.writerIndex_ data
      writerIndex_ := b.writerIndex_ + data.length }
  else
    throw .outOfRange

/-- What `readv` can fill: the free tail of the vector, and the stack area
when the tail is shorter than it. -/
def readvCapacity (b : Buffer) : ℕ :=
  if b.writableBytes < extrabufSize then b.writableBytes + extrabufSize
  else b.writableBytes

/-- `readFd` on a successful `readv` that delivers `data`. -/
def readFd (b : Buffer) (data : Bytes) : Exec Buffer :=
  let writable := b.writableBytes
  let filled := { b with
    buffer_ := overwrite b.buffer_ b.writerIndex_ (data.take writable) }
  if data.length ≤ writable then
    .ok { filled with writerIndex_ := filled.writerIndex_ + data.length }
  else
    -- the rest went to extrabuf
    { filled with writerIndex_ := filled.buffer_.length }.append
      (data.drop writable)

end Buffer

end MyFileServer
