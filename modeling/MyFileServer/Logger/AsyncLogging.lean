import MyFileServer.Logger.FixedBuffer
import MyFileServer.Lib.Execution

/-!
# The asynchronous log

Front-end threads store lines in `currentBuffer_`; the back-end thread takes
the buffers and passes each to `LogFile::append`.  A step is one critical
section on `mutex_`, one test of `running_`, one call of `LogFile::append`, or
what a thread does between these on its own data.  A wait on `cond_` may end at
any time.
-/

namespace MyFileServer

open Execution

@[irreducible] def kLargeBuffer : ℕ := 4000 * 1000

theorem lt_kLargeBuffer {n : ℕ} (hn : n < 4000000) : n < kLargeBuffer := by
  unfold kLargeBuffer
  exact hn

theorem kLargeBuffer_pos : 0 < kLargeBuffer :=
  lt_kLargeBuffer (by decide)

abbrev LogBuffer := FixedBuffer kLargeBuffer

/-- What `new` finds in the memory of a buffer. -/
abbrev LogMemory := {data : Bytes // data.length = kLargeBuffer}

def LogMemory.zero : LogMemory :=
  ⟨List.replicate kLargeBuffer 0, List.length_replicate⟩

/-- `new Buffer`, and the same with `bzero`. -/
def LogBuffer.new (memory : LogMemory) : LogBuffer :=
  FixedBuffer.allocate kLargeBuffer_pos memory

def LogBuffer.zeroed : LogBuffer :=
  LogBuffer.new LogMemory.zero

/-- Why a step has no result: no thread can take it, or a pointer that is null
or the last element of an empty vector is used. -/
inductive LogFailure
  | notEnabled
  | nullPointer
  deriving DecidableEq, Repr

def deref {α : Type} (pointer : Option α) : Except LogFailure α :=
  match pointer with
  | some value => .ok value
  | none => .error .nullPointer

structure AsyncLogging where
  running_ : Bool
  currentBuffer_ : Option LogBuffer
  nextBuffer_ : Option LogBuffer
  buffers_ : List LogBuffer

/-- Where the back end is, with the local variables it has there. -/
inductive BackEnd
  | noThread
  | created
  /-- In front of the test of `running_`. -/
  | atHead (newBuffer1 newBuffer2 : Option LogBuffer)
  /-- The test has found `running_` true. -/
  | locking (newBuffer1 newBuffer2 : Option LogBuffer)
  | waiting (newBuffer1 newBuffer2 : Option LogBuffer)
  /-- In front of the call of `LogFile::append` for buffer number `next`. -/
  | writing (newBuffer1 newBuffer2 : Option LogBuffer)
      (buffersToWrite : List LogBuffer) (next : ℕ)
  | finished

def BackEnd.hasThread : BackEnd → Bool
  | .noThread => false
  | _ => true

/-- The log with its back end, the buffers passed to `LogFile::append` as they
were then, and the lines of all calls of `append` in the order of the lock. -/
structure LogSystem where
  log : AsyncLogging
  backEnd : BackEnd
  passed : List LogBuffer
  appended : List Bytes
  stopped : Bool

inductive LogInput
  /-- A call of `append`, with the memory that `new` would find. -/
  | append (line : Bytes) (memory : LogMemory)
  | start
  | enter
  | test
  | lock
  | wake
  | write
  | recycle
  | stop

namespace AsyncLogging

def append (log : AsyncLogging) (line : Bytes) (memory : LogMemory) :
    Except LogFailure AsyncLogging := do
  let current ← deref log.currentBuffer_
  if line.length < current.avail then
    return { log with currentBuffer_ := some (current.append line) }
  else
    let buffers := log.buffers_ ++ [current]
    match log.nextBuffer_ with
    | some next =>
        return { log with
          buffers_ := buffers
          currentBuffer_ := some (next.append line)
          nextBuffer_ := none }
    | none =>
        return { log with
          buffers_ := buffers
          currentBuffer_ := some ((LogBuffer.new memory).append line) }

/-- The critical section of the back end, from the end of the wait on. -/
def swap (log : AsyncLogging) (newBuffer1 newBuffer2 : Option LogBuffer) :
    Except LogFailure (AsyncLogging × BackEnd) := do
  let current ← deref log.currentBuffer_
  let buffersToWrite := log.buffers_ ++ [current]
  let log := { log with currentBuffer_ := newBuffer1, buffers_ := [] }
  match log.nextBuffer_ with
  | some _ => return (log, .writing none newBuffer2 buffersToWrite 0)
  | none =>
      return ({ log with nextBuffer_ := newBuffer2 }, .writing none none buffersToWrite 0)

/-- One of the two statements that give a buffer back. -/
def takeBack (newBuffer : Option LogBuffer) (buffersToWrite : List LogBuffer) :
    Except LogFailure (LogBuffer × List LogBuffer) :=
  match newBuffer with
  | some buffer => .ok (buffer, buffersToWrite)
  | none => do
      let back ← deref buffersToWrite.getLast?
      return (back.reset, buffersToWrite.dropLast)

/-- The rest of the loop body after the buffers are written. -/
def recycle (newBuffer1 newBuffer2 : Option LogBuffer) (buffersToWrite : List LogBuffer) :
    Except LogFailure BackEnd := do
  let buffersToWrite :=
    if 2 < buffersToWrite.length then buffersToWrite.take 2 else buffersToWrite
  let (buffer1, buffersToWrite) ← takeBack newBuffer1 buffersToWrite
  let (buffer2, _) ← takeBack newBuffer2 buffersToWrite
  return .atHead (some buffer1) (some buffer2)

end AsyncLogging

namespace LogSystem

def initial : LogSystem where
  log :=
    { running_ := false
      currentBuffer_ := some LogBuffer.zeroed
      nextBuffer_ := some LogBuffer.zeroed
      buffers_ := [] }
  backEnd := .noThread
  passed := []
  appended := []
  stopped := false

/-- A thread that calls `stop` then waits in `join` until the back end has
finished. -/
def next (s : LogSystem) (input : LogInput) : Except LogFailure LogSystem :=
  match input, s.backEnd with
  | .append line memory, _ => do
      let log ← s.log.append line memory
      return { s with log, appended := s.appended ++ [line] }
  | .start, .noThread =>
      return { s with log := { s.log with running_ := true }, backEnd := .created }
  | .enter, .created =>
      return { s with backEnd := .atHead (some LogBuffer.zeroed) (some LogBuffer.zeroed) }
  | .test, .atHead buffer1 buffer2 =>
      return { s with backEnd :=
        if s.log.running_ then .locking buffer1 buffer2 else .finished }
  | .lock, .locking buffer1 buffer2 =>
      if s.log.buffers_.isEmpty then
        return { s with backEnd := .waiting buffer1 buffer2 }
      else do
        let (log, backEnd) ← s.log.swap buffer1 buffer2
        return { s with log, backEnd }
  | .wake, .waiting buffer1 buffer2 => do
      let (log, backEnd) ← s.log.swap buffer1 buffer2
      return { s with log, backEnd }
  | .write, .writing buffer1 buffer2 buffersToWrite next =>
      match buffersToWrite[next]? with
      | some buffer =>
          return { s with
            passed := s.passed ++ [buffer]
            backEnd := .writing buffer1 buffer2 buffersToWrite (next + 1) }
      | none => throw .notEnabled
  | .recycle, .writing buffer1 buffer2 buffersToWrite next =>
      if next = buffersToWrite.length then do
        let backEnd ← AsyncLogging.recycle buffer1 buffer2 buffersToWrite
        return { s with backEnd }
      else throw .notEnabled
  | .stop, backEnd =>
      if backEnd.hasThread ∧ !s.stopped then
        return { s with log := { s.log with running_ := false }, stopped := true }
      else throw .notEnabled
  | _, _ => throw .notEnabled

/-- What each step does when it is taken. -/
inductive Transition (s : LogSystem) : LogInput → LogSystem → Prop
  | append {line : Bytes} {memory : LogMemory} {log : AsyncLogging}
      (happend : s.log.append line memory = .ok log) :
      Transition s (.append line memory) { s with log, appended := s.appended ++ [line] }
  | start (hback : s.backEnd = .noThread) :
      Transition s .start
        { s with log := { s.log with running_ := true }, backEnd := .created }
  | enter (hback : s.backEnd = .created) :
      Transition s .enter
        { s with backEnd := .atHead (some LogBuffer.zeroed) (some LogBuffer.zeroed) }
  | test {buffer1 buffer2 : Option LogBuffer} (hback : s.backEnd = .atHead buffer1 buffer2) :
      Transition s .test
        { s with backEnd := if s.log.running_ then .locking buffer1 buffer2 else .finished }
  | wait {buffer1 buffer2 : Option LogBuffer} (hback : s.backEnd = .locking buffer1 buffer2) :
      Transition s .lock { s with backEnd := .waiting buffer1 buffer2 }
  | swap {input : LogInput} {buffer1 buffer2 : Option LogBuffer} {log : AsyncLogging}
      {backEnd : BackEnd} (hinput : input = .lock ∨ input = .wake)
      (hback : s.backEnd = .locking buffer1 buffer2 ∨ s.backEnd = .waiting buffer1 buffer2)
      (hswap : s.log.swap buffer1 buffer2 = .ok (log, backEnd)) :
      Transition s input { s with log, backEnd }
  | write {buffer1 buffer2 : Option LogBuffer} {buffersToWrite : List LogBuffer} {next : ℕ}
      {buffer : LogBuffer} (hback : s.backEnd = .writing buffer1 buffer2 buffersToWrite next)
      (hget : buffersToWrite[next]? = some buffer) :
      Transition s .write { s with
        passed := s.passed ++ [buffer]
        backEnd := .writing buffer1 buffer2 buffersToWrite (next + 1) }
  | recycle {buffer1 buffer2 : Option LogBuffer} {buffersToWrite : List LogBuffer}
      {backEnd : BackEnd}
      (hback : s.backEnd = .writing buffer1 buffer2 buffersToWrite buffersToWrite.length)
      (hrecycle : AsyncLogging.recycle buffer1 buffer2 buffersToWrite = .ok backEnd) :
      Transition s .recycle { s with backEnd }
  | stop (hthread : s.backEnd.hasThread = true) (hfirst : s.stopped = false) :
      Transition s .stop
        { s with log := { s.log with running_ := false }, stopped := true }

theorem transition_of_next {s s' : LogSystem} {input : LogInput}
    (h : s.next input = .ok s') : Transition s input s' := by
  unfold next at h
  split at h
  · obtain ⟨log, hlog, hpure⟩ := bind_eq_ok.mp h
    cases hpure
    exact .append hlog
  · rename_i hback
    cases h
    exact .start hback
  · rename_i hback
    cases h
    exact .enter hback
  · rename_i hback
    cases h
    exact .test hback
  · rename_i hback
    split_ifs at h
    · cases h
      exact .wait hback
    · obtain ⟨⟨log, backEnd⟩, hswap, hpure⟩ := bind_eq_ok.mp h
      cases hpure
      exact .swap (.inl rfl) (.inl hback) hswap
  · rename_i hback
    obtain ⟨⟨log, backEnd⟩, hswap, hpure⟩ := bind_eq_ok.mp h
    cases hpure
    exact .swap (.inr rfl) (.inr hback) hswap
  · rename_i hback
    split at h
    · rename_i hget
      cases h
      exact .write hback hget
    · cases h
  · rename_i hback
    split_ifs at h with hdone
    subst hdone
    obtain ⟨backEnd, hrecycle, hpure⟩ := bind_eq_ok.mp h
    cases hpure
    exact .recycle hback hrecycle
  · split_ifs at h with hstop
    cases h
    exact .stop hstop.1 (by simpa using hstop.2)
  · cases h

def step (s : LogSystem) (input : LogInput) : Except LogFailure (LogSystem × Unit) := do
  let s ← s.next input
  return (s, ())

theorem step_eq_ok {s s' : LogSystem} {input : LogInput} {output : Unit} :
    s.step input = .ok (s', output) ↔ s.next input = .ok s' := by
  constructor
  · intro h
    obtain ⟨_, hnext, hpure⟩ := bind_eq_ok.mp h
    cases hpure
    exact hnext
  · intro h
    exact bind_eq_ok.mpr ⟨s', h, rfl⟩

end LogSystem

end MyFileServer
