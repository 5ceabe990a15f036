import MyFileServer.Logger.LogTime

/-!
# Log records

`Logger` inserts the time and the level of a record into its stream, then
takes the insertions of the statement, and its destructor appends the place of
the statement and passes the stream's buffer on.  What it passes is the whole
array and not the part in front of the cursor.
-/

namespace MyFileServer

open Execution

/-! ## Statements -/

inductive LogLevel
  | TRACE
  | DEBUG
  | INFO
  | WARN
  | ERROR
  | FATAL
  deriving DecidableEq, Repr

def getLevelName : LogLevel → Bytes
  | .TRACE => ascii "TRACE "
  | .DEBUG => ascii "DEBUG "
  | .INFO => ascii "INFO  "
  | .WARN => ascii "WARN  "
  | .ERROR => ascii "ERROR "
  | .FATAL => ascii "FATAL "

/-- `SourceFile`: the name behind the last slash, with its length as an
`int`. -/
structure SourceFile where
  data_ : Bytes
  size_ : ℤ

def SourceFile.create (filename : Bytes) : SourceFile :=
  let name := cstr filename
  let data_ := if chr '/' ∈ name then name.drop (findLastOf name (chr '/') + 1) else name
  { data_, size_ := toInt data_.length }

structure Logger where
  stream_ : LogStream
  level_ : LogLevel
  line_ : IntegerType.int.Value
  basename_ : SourceFile

namespace Logger

/-- What `Impl` inserts for an error number, which is none for zero. -/
def errnoInsertions (env : LogEnvironment) (savedErrno : IntegerType.int.Value) :
    List Insertion :=
  if savedErrno.1 ≠ 0 then
    [.cString (some (env.getErrnoMsg savedErrno)), .cString (some (ascii " (errno=")),
      .integer IntegerType.int savedErrno, .cString (some (ascii ") "))]
  else []

/-- `Logger::Impl::Impl`. -/
def create (env : LogEnvironment) (level : LogLevel) (savedErrno : IntegerType.int.Value)
    (file : Bytes) (line : IntegerType.int.Value) : Exec Logger := do
  let stream ← env.formatTime (LogStream.create env.memory)
  let stream ← stream.insert (.generalTemplate (getLevelName level) 6)
  let stream_ ← stream.insertAll (errnoInsertions env savedErrno)
  return { stream_, level_ := level, line_ := line, basename_ := SourceFile.create file }

/-- What `finish` inserts. -/
def suffix (basename : SourceFile) (line : IntegerType.int.Value) : List Insertion :=
  [.cString (some (ascii " - ")), .generalTemplate basename.data_ basename.size_,
    .char (chr ':'), .integer IntegerType.int line, .char (chr '\n')]

def finish (logger : Logger) : Exec Logger := do
  let stream_ ← logger.stream_.insertAll (suffix logger.basename_ logger.line_)
  return { logger with stream_ }

/-- What `g_output` receives, and whether the program is aborted after it. -/
structure Outcome where
  output : Bytes
  aborts : Bool

/-- `Logger::~Logger`. -/
def destroy (logger : Logger) : Exec (Logger × Outcome) := do
  let logger ← logger.finish
  let buf := logger.stream_.buffer_
  return (logger, { output := buf.data_.take buf.length, aborts := logger.level_ = .FATAL })

end Logger

/-- A statement.  Without a level it is `INFO`; `func`, which one of the three
constructors takes, is the name of the function. -/
structure LogStatement where
  file : Bytes
  line : IntegerType.int.Value
  level : LogLevel := .INFO
  func : Option Bytes := none
  insertions : List Insertion
  readable : ∀ insertion ∈ insertions, insertion.Readable

namespace LogStatement

def funcInsertions (statement : LogStatement) : List Insertion :=
  match statement.func with
  | some func => [.cString (some func), .char (chr ' ')]
  | none => []

/-- Each constructor passes zero for the error number. -/
def run (statement : LogStatement) (env : LogEnvironment) : Exec (Logger × Logger.Outcome) := do
  let logger ← Logger.create env statement.level ⟨0, by decide⟩ statement.file statement.line
  let stream_ ← logger.stream_.insertAll statement.funcInsertions
  let stream_ ← stream_.insertAll statement.insertions
  { logger with stream_ }.destroy

/-- Time and level, the accepted insertions and the place of the statement. -/
def composed (statement : LogStatement) (env : LogEnvironment) : Bytes :=
  let head := env.timePrefix ++ getLevelName statement.level
  head ++ Insertion.acceptedText (kSmallBuffer - head.length)
    (statement.funcInsertions ++ statement.insertions ++
      Logger.suffix (SourceFile.create statement.file) statement.line)

/-- `g_output` receives the record and no byte beyond it. -/
def Delivered (statement : LogStatement) (env : LogEnvironment) : Prop :=
  ∃ logger outcome, statement.run env = .ok (logger, outcome) ∧
    outcome.output = statement.composed env

/-- A length that is not what it was before the conversion to `int` is shorter
or too long for the buffer. -/
theorem readable_template (data : Bytes) :
    (Insertion.generalTemplate data (toInt data.length)).Readable := by
  change toSizeT (toInt data.length) < kSmallBuffer → toSizeT (toInt data.length) ≤ data.length
  rw [toSizeT_toInt_eq]
  intro hshort
  unfold kSmallBuffer at hshort
  split_ifs at hshort ⊢ <;> omega

theorem readable_suffix (file : Bytes) (line : IntegerType.int.Value) :
    ∀ insertion ∈ Logger.suffix (SourceFile.create file) line, insertion.Readable := by
  intro insertion hmem
  simp only [Logger.suffix, SourceFile.create, List.mem_cons, List.not_mem_nil, or_false] at hmem
  rcases hmem with rfl | rfl | rfl | rfl | rfl
  · trivial
  · exact readable_template _
  · trivial
  · trivial
  · trivial

theorem readable_func (statement : LogStatement) :
    ∀ insertion ∈ statement.funcInsertions, insertion.Readable := by
  unfold funcInsertions
  cases statement.func with
  | none => simp
  | some func => simp [Insertion.Readable]

theorem create_used (env : LogEnvironment) (level : LogLevel) (file : Bytes)
    (line : IntegerType.int.Value) :
    ∃ stream_, Logger.create env level ⟨0, by decide⟩ file line =
        .ok { stream_, level_ := level, line_ := line, basename_ := SourceFile.create file } ∧
      stream_.buffer_.used = env.timePrefix ++ getLevelName level := by
  obtain ⟨timed, htime, hused⟩ := env.formatTime_create
  have hlevel : (getLevelName level).length = 6 := by
    cases level <;> rfl
  have hread : (Insertion.generalTemplate (getLevelName level) 6).Readable := by
    intro _
    rw [hlevel]
    exact le_refl 6
  obtain ⟨levelled, hinsert, htakes⟩ := timed.insert_takes hread
  have hfits : (Insertion.generalTemplate (getLevelName level) 6).fits timed.buffer_.avail =
      true := by
    have hcur := timed.buffer_.length_used
    rw [hused, env.length_timePrefix] at hcur
    change decide (6 < kSmallBuffer - timed.buffer_.cur_) = true
    rw [← hcur]
    rfl
  refine ⟨levelled, ?_, ?_⟩
  · exact bind_eq_ok.mpr ⟨_, htime, bind_eq_ok.mpr ⟨_, hinsert, rfl⟩⟩
  · rw [htakes.used_eq hfits, hused]
    change env.timePrefix ++ (getLevelName level).take 6 = _
    rw [← hlevel, List.take_length]

/-- The bytes in front of the cursor are the record as composed, and the whole
array is passed on. -/
theorem run_used (statement : LogStatement) (env : LogEnvironment) :
    ∃ logger outcome, statement.run env = .ok (logger, outcome) ∧
      logger.stream_.buffer_.used = statement.composed env ∧
      outcome.output = logger.stream_.buffer_.data_ := by
  obtain ⟨created, hcreate, hhead⟩ :=
    create_used env statement.level statement.file statement.line
  have hread : ∀ insertion ∈ statement.funcInsertions ++ statement.insertions ++
      Logger.suffix (SourceFile.create statement.file) statement.line, insertion.Readable := by
    intro insertion hmem
    rcases List.mem_append.mp hmem with hfront | hsuffix
    · rcases List.mem_append.mp hfront with hfunc | hbody
      · exact statement.readable_func insertion hfunc
      · exact statement.readable insertion hbody
    · exact readable_suffix _ _ insertion hsuffix
  obtain ⟨final, hinsert, hused⟩ := @LogStream.insertAll_used created _ hread
  rw [LogStream.insertAll_append, LogStream.insertAll_append, bind_assoc] at hinsert
  obtain ⟨first, hfunc, hrest⟩ := bind_eq_ok.mp hinsert
  obtain ⟨second, hbody, hsuffix⟩ := bind_eq_ok.mp hrest
  have hlength := final.buffer_.length_data
  refine ⟨⟨final, statement.level, statement.line, SourceFile.create statement.file⟩,
    ⟨final.buffer_.data_.take final.buffer_.length, statement.level = .FATAL⟩, ?_, ?_, ?_⟩
  · refine bind_eq_ok.mpr ⟨_, hcreate, ?_⟩
    refine bind_eq_ok.mpr ⟨_, hfunc, ?_⟩
    refine bind_eq_ok.mpr ⟨_, hbody, ?_⟩
    exact bind_eq_ok.mpr ⟨_, bind_eq_ok.mpr ⟨_, hsuffix, rfl⟩, rfl⟩
  · have havail : created.buffer_.avail =
        kSmallBuffer - (env.timePrefix ++ getLevelName statement.level).length := by
      rw [← hhead, FixedBuffer.length_used]
      rfl
    change final.buffer_.used = statement.composed env
    rw [hused, hhead, havail]
    rfl
  · exact List.take_of_length_le (le_of_eq hlength)

theorem length_composed_lt (statement : LogStatement) (env : LogEnvironment) :
    (statement.composed env).length < kSmallBuffer := by
  obtain ⟨logger, _, _, hused, _⟩ := statement.run_used env
  rw [← hused, FixedBuffer.length_used]
  exact logger.stream_.buffer_.cur_lt

/-- Every record is padded to the size of the array, so no statement is
delivered as composed. -/
theorem not_delivered (statement : LogStatement) (env : LogEnvironment) :
    (∃ logger outcome, statement.run env = .ok (logger, outcome) ∧
      logger.stream_.buffer_.used = statement.composed env ∧
      outcome.output.length = kSmallBuffer) ∧
    ¬ statement.Delivered env := by
  obtain ⟨logger, outcome, hrun, hused, houtput⟩ := statement.run_used env
  have hlength : outcome.output.length = kSmallBuffer := by
    rw [houtput, logger.stream_.buffer_.length_data]
  refine ⟨⟨logger, outcome, hrun, hused, hlength⟩, ?_⟩
  rintro ⟨logger', outcome', hrun', hsame⟩
  rw [hrun] at hrun'
  cases hrun'
  have hshort := statement.length_composed_lt env
  rw [← hsame, hlength] at hshort
  exact lt_irrefl _ hshort

/-- `LOG_INFO << "hi"` in line 7 of `main.cc`. -/
def hello : LogStatement where
  file := ascii "src/main.cc"
  line := ⟨7, by decide⟩
  insertions := [.cString (some (ascii "hi"))]
  readable := by simp [Insertion.Readable]

theorem not_delivered_hello :
    hello.composed (.start 5) = ascii "1970/01/01 00:00:000005 INFO  hi - main.cc:7\n" ∧
      (∃ logger outcome, hello.run (.start 5) = .ok (logger, outcome) ∧
        outcome.output.length = 4000) ∧
      ¬ hello.Delivered (.start 5) := by
  have hcomposed : hello.composed (.start 5) =
      ascii "1970/01/01 00:00:000005 INFO  hi - main.cc:7\n" := by decide +kernel
  obtain ⟨logger, outcome, hrun, _, houtput⟩ := hello.run_used (.start 5)
  have hlength : outcome.output.length = 4000 := by
    rw [houtput, logger.stream_.buffer_.length_data]
    rfl
  refine ⟨hcomposed, ⟨logger, outcome, hrun, hlength⟩, ?_⟩
  rintro ⟨logger', outcome', hrun', hsame⟩
  rw [hrun] at hrun'
  cases hrun'
  have hshort := hello.length_composed_lt (.start 5)
  rw [← hsame, hlength] at hshort
  exact lt_irrefl _ hshort

end LogStatement

end MyFileServer
