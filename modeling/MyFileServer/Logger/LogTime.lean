import MyFileServer.Base.Timestamp
import MyFileServer.Logger.LogStream

/-!
# The time of a log record

`formatTime` splits the time stamp into seconds and microseconds, formats the
local time into an array of the thread and copies a part of it into the
stream.  The 17 bytes that it copies end in front of the seconds, so two
records show different times iff these differ in more than the seconds.
-/

namespace MyFileServer

open Execution

/-! ## `snprintf` -/

/-- `%4d` for the width 4. -/
def padded (width : ℕ) (v : ℤ) : Bytes :=
  List.replicate (width - (to_string v).length) (chr ' ') ++ to_string v

/-- `%02d` for the width 2. -/
def zeroPadded (width : ℕ) (v : ℤ) : Bytes :=
  let sign := if v < 0 then [chr '-'] else []
  let digits := decimal v.natAbs
  sign ++ (List.replicate (width - sign.length - digits.length) (chr '0') ++ digits)

/-- `snprintf(array, sizeof(array), ...)` with a format that gives `text`. -/
def snprintf (array text : Bytes) : Exec Bytes :=
  arrayPut array 0 (text.take (array.length - 1) ++ [0])

theorem le_length_padded (width : ℕ) (v : ℤ) : width ≤ (padded width v).length := by
  simp only [padded, List.length_append, List.length_replicate]
  omega

theorem le_length_zeroPadded (width : ℕ) (v : ℤ) : width ≤ (zeroPadded width v).length := by
  simp only [zeroPadded, List.length_append, List.length_replicate]
  omega

theorem isNumber_zeros_decimal (k n : ℕ) :
    IsNumber (List.replicate k (chr '0') ++ decimal n) ∧
      digitsValue (List.replicate k (chr '0') ++ decimal n) = n := by
  have hzero : ∀ k, digitsValue (List.replicate k (chr '0')) = 0 := by
    intro k
    induction k with
    | zero => rfl
    | succ k ih => exact ih
  refine ⟨⟨by simp [decimal_ne_nil], ?_⟩, ?_⟩
  · intro c hc
    rcases List.mem_append.mp hc with hfront | hback
    · rw [List.eq_of_mem_replicate hfront]
      rfl
    · exact isdigit_of_mem_decimal hback
  · have hvalue := digitsValue_decimal n
    have hfront := hzero k
    unfold digitsValue at hvalue hfront ⊢
    rw [List.foldl_append, hfront, hvalue]

theorem parseInteger_zeroPadded (width : ℕ) (v : ℤ) :
    parseInteger (zeroPadded width v) = some v := by
  obtain ⟨hnumber, hvalue⟩ := isNumber_zeros_decimal
    (width - (if v < 0 then [chr '-'] else []).length - (decimal v.natAbs).length) v.natAbs
  exact parseInteger_eq hnumber hvalue

theorem zeroPadded_injective (width : ℕ) : Function.Injective (zeroPadded width) := by
  intro v w h
  have hv := parseInteger_zeroPadded width v
  rw [h, parseInteger_zeroPadded] at hv
  exact (Option.some.inj hv).symm

/-- What is read back from the array, if it is not cut off. -/
theorem snprintf_take {array text : Bytes} {n : ℕ} (hn : n ≤ text.length)
    (harray : n < array.length) :
    ∃ array', snprintf array text = .ok array' ∧ array'.length = array.length ∧
      array'.take n = text.take n := by
  have hlength : (text.take (array.length - 1) ++ [0]).length =
      min (array.length - 1) text.length + 1 := by
    rw [List.length_append, List.length_take, List.length_singleton]
  have hfit : 0 + (text.take (array.length - 1) ++ [0]).length ≤ array.length := by omega
  refine ⟨_, arrayPut_eq_ok.mpr ⟨hfit, rfl⟩, Window.length_overwrite hfit, ?_⟩
  rw [Window.overwrite, List.take_zero, List.nil_append, List.append_assoc,
    List.take_append_of_le_length (by rw [List.length_take]; omega), List.take_take,
    Nat.min_eq_left (by omega)]

/-! ## The time of a record -/

/-- The fields of `struct tm` that are read. -/
structure Tm where
  tm_year : ℤ
  tm_mon : ℤ
  tm_mday : ℤ
  tm_hour : ℤ
  tm_min : ℤ
  tm_sec : ℤ

/-- What `localtime` promises of the fields. -/
structure Tm.Valid (tm : Tm) : Prop where
  mon : 0 ≤ tm.tm_mon ∧ tm.tm_mon ≤ 11
  mday : 1 ≤ tm.tm_mday ∧ tm.tm_mday ≤ 31
  hour : 0 ≤ tm.tm_hour ∧ tm.tm_hour ≤ 23
  min : 0 ≤ tm.tm_min ∧ tm.tm_min ≤ 59
  sec : 0 ≤ tm.tm_sec ∧ tm.tm_sec ≤ 60

/-- `"%4d/%02d/%02d %02d:%02d:%02d"`. -/
def timeText (tm : Tm) : Bytes :=
  padded 4 (tm.tm_year + 1900) ++ [chr '/'] ++ zeroPadded 2 (tm.tm_mon + 1) ++ [chr '/'] ++
    zeroPadded 2 tm.tm_mday ++ [chr ' '] ++ zeroPadded 2 tm.tm_hour ++ [chr ':'] ++
    zeroPadded 2 tm.tm_min ++ [chr ':'] ++ zeroPadded 2 tm.tm_sec

/-- `"%06d "`. -/
def microsecondText (microseconds : ℤ) : Bytes :=
  zeroPadded 6 microseconds ++ [chr ' ']

/-- The two parts of a time stamp; the division of C++ rounds towards zero. -/
def secondsOf (now : Timestamp) : ℤ :=
  now.microSecondsSinceEpoch_.tdiv Timestamp.kMicroSecondsPerSecond

def microsecondsOf (now : Timestamp) : ℤ :=
  now.microSecondsSinceEpoch_.tmod Timestamp.kMicroSecondsPerSecond

/-- The array of the thread that `formatTime` writes into. -/
abbrev ThreadTime := {t_time : Bytes // t_time.length = 64}

/-- What a statement finds: the clock, the C library, the array of the thread
and the memory of the new stream. -/
structure LogEnvironment where
  now : Timestamp
  localtime : ℤ → Tm
  getErrnoMsg : ℤ → Bytes
  t_time : ThreadTime
  memory : {data : Bytes // data.length = kSmallBuffer}

namespace LogEnvironment

def formatTime (env : LogEnvironment) (stream : LogStream) : Exec LogStream := do
  let t_time ← snprintf env.t_time.1 (timeText (env.localtime (secondsOf env.now)))
  let buf ← snprintf (List.replicate 32 0) (microsecondText (microsecondsOf env.now))
  stream.insertAll [.generalTemplate t_time 17, .generalTemplate buf 7]

/-- What `formatTime` inserts. -/
def timePrefix (env : LogEnvironment) : Bytes :=
  (timeText (env.localtime (secondsOf env.now))).take 17 ++
    (microsecondText (microsecondsOf env.now)).take 7

theorem le_length_timeText (tm : Tm) : 19 ≤ (timeText tm).length := by
  have hyear := le_length_padded 4 (tm.tm_year + 1900)
  have hmon := le_length_zeroPadded 2 (tm.tm_mon + 1)
  have hmday := le_length_zeroPadded 2 tm.tm_mday
  have hhour := le_length_zeroPadded 2 tm.tm_hour
  have hmin := le_length_zeroPadded 2 tm.tm_min
  have hsec := le_length_zeroPadded 2 tm.tm_sec
  simp only [timeText, List.length_append, List.length_singleton]
  omega

theorem le_length_microsecondText (microseconds : ℤ) :
    7 ≤ (microsecondText microseconds).length := by
  have hdigits := le_length_zeroPadded 6 microseconds
  simp only [microsecondText, List.length_append, List.length_singleton]
  omega

theorem length_timePrefix (env : LogEnvironment) : env.timePrefix.length = 24 := by
  have htime := le_length_timeText (env.localtime (secondsOf env.now))
  have hmicro := le_length_microsecondText (microsecondsOf env.now)
  simp only [timePrefix, List.length_append, List.length_take]
  omega

theorem formatTime_used (env : LogEnvironment) {stream : LogStream}
    (hroom : 24 < stream.buffer_.avail) :
    ∃ next, env.formatTime stream = .ok next ∧
      next.buffer_.used = stream.buffer_.used ++ env.timePrefix := by
  have htime := le_length_timeText (env.localtime (secondsOf env.now))
  have hmicro := le_length_microsecondText (microsecondsOf env.now)
  have hbuf : (List.replicate 32 (0 : UInt8)).length = 32 := List.length_replicate
  obtain ⟨t_time, htimeText, hlength, htake⟩ := @snprintf_take env.t_time.1
    (timeText (env.localtime (secondsOf env.now))) 17 (by omega) (by rw [env.t_time.2]; decide)
  obtain ⟨buf, hbufText, hlength', htake'⟩ := @snprintf_take (List.replicate 32 0)
    (microsecondText (microsecondsOf env.now)) 7 (by omega) (by rw [hbuf]; decide)
  have hlen : toSizeT 17 = 17 := rfl
  have hlen' : toSizeT 7 = 7 := rfl
  rw [env.t_time.2] at hlength
  rw [hbuf] at hlength'
  have hread : ∀ insertion ∈
      [Insertion.generalTemplate t_time 17, Insertion.generalTemplate buf 7],
      insertion.Readable := by
    simp [Insertion.Readable, hlen, hlen', hlength, hlength']
  obtain ⟨next, hinsert, hused⟩ := @LogStream.insertAll_used stream _ hread
  refine ⟨next, ?_, ?_⟩
  · exact bind_eq_ok.mpr ⟨_, htimeText, bind_eq_ok.mpr ⟨_, hbufText, hinsert⟩⟩
  · have hfits : (Insertion.generalTemplate t_time 17).fits stream.buffer_.avail = true := by
      simp only [Insertion.fits, hlen, decide_eq_true_eq]
      omega
    have htext : (Insertion.generalTemplate t_time 17).text.length = 17 := by
      simp only [Insertion.text, hlen, List.length_take, hlength]
      rfl
    have hfits' : (Insertion.generalTemplate buf 7).fits (stream.buffer_.avail - 17) = true := by
      simp only [Insertion.fits, hlen', decide_eq_true_eq]
      omega
    rw [hused, Insertion.acceptedText_cons hfits, htext, Insertion.acceptedText_cons hfits',
      Insertion.acceptedText, List.append_nil]
    simp only [Insertion.text, hlen, hlen', htake, htake']
    rfl

theorem formatTime_create (env : LogEnvironment) :
    ∃ stream, env.formatTime (LogStream.create env.memory) = .ok stream ∧
      stream.buffer_.used = env.timePrefix := by
  have hroom : 24 < (LogStream.create env.memory).buffer_.avail := by
    change 24 < kSmallBuffer - 0
    decide
  obtain ⟨stream, hformat, hused⟩ := env.formatTime_used hroom
  exact ⟨stream, hformat, hused.trans (List.nil_append _)⟩

end LogEnvironment

/-! ## What the time of a record says -/

/-- The local time of a time stamp. -/
structure LocalTime where
  year : ℤ
  month : ℤ
  day : ℤ
  hour : ℤ
  minute : ℤ
  second : ℤ
  microsecond : ℤ
  deriving DecidableEq

/-- Everything but the seconds. -/
def LocalTime.shown (time : LocalTime) : Bytes :=
  padded 4 time.year ++ ([chr '/'] ++ (zeroPadded 2 time.month ++ ([chr '/'] ++
    (zeroPadded 2 time.day ++ ([chr ' '] ++ (zeroPadded 2 time.hour ++ ([chr ':'] ++
    (zeroPadded 2 time.minute ++ ([chr ':'] ++
    (microsecondText time.microsecond).take 7)))))))))

theorem not_isspace_head_to_string (v : ℤ) :
    (to_string v).dropWhile isspace = to_string v := by
  unfold to_string
  split_ifs
  · exact List.dropWhile_cons_of_neg (by decide)
  · exact (isNumber_decimal _).dropWhile_isspace

theorem padded_injective (width : ℕ) : Function.Injective (padded width) := by
  have hread : ∀ v, parseInteger ((padded width v).dropWhile isspace) = some v := by
    intro v
    have hblanks : ∀ c ∈ List.replicate (width - (to_string v).length) (chr ' '),
        isspace c = true := by
      intro c hc
      rw [List.eq_of_mem_replicate hc]
      decide
    rw [padded, List.dropWhile_append_of_pos hblanks, not_isspace_head_to_string]
    exact (isCanonical_to_string v).parseInteger_eq
  intro v w h
  have hv := hread v
  rw [h, hread] at hv
  exact (Option.some.inj hv).symm

theorem length_padded {width : ℕ} {v : ℤ} (hwidth : 0 < width) (hlow : 0 ≤ v)
    (hhigh : v.natAbs < 10 ^ width) : (padded width v).length = width := by
  have hdigits := length_decimal_le hwidth hhigh
  have htext : to_string v = decimal v.natAbs := if_neg (by omega)
  simp only [padded, htext, List.length_append, List.length_replicate]
  omega

theorem length_zeroPadded {width : ℕ} {v : ℤ} (hwidth : 0 < width) (hlow : 0 ≤ v)
    (hhigh : v.natAbs < 10 ^ width) : (zeroPadded width v).length = width := by
  have hdigits := length_decimal_le hwidth hhigh
  simp only [zeroPadded, if_neg (not_lt.mpr hlow), List.length_append, List.length_replicate,
    List.length_nil]
  omega

theorem blank_notMem_zeroPadded (width : ℕ) (v : ℤ) : chr ' ' ∉ zeroPadded width v := by
  intro hmem
  unfold zeroPadded at hmem
  rcases List.mem_append.mp hmem with hsign | hdigits
  · split_ifs at hsign
    · exact absurd (List.mem_singleton.mp hsign) (by decide)
    · cases hsign
  · have hnumber := (isNumber_zeros_decimal _ _).1.digits _ hdigits
    exact absurd hnumber (by decide)

theorem takeWhile_microsecondText {v : ℤ} (hsmall : v.natAbs < 10 ^ 6) :
    ((microsecondText v).take 7).takeWhile (· ≠ chr ' ') = zeroPadded 6 v := by
  have hblank := blank_notMem_zeroPadded 6 v
  have hdigits := @length_decimal_le v.natAbs 6 (by decide) hsmall
  have hlength : (zeroPadded 6 v).length = 6 ∨ (zeroPadded 6 v).length = 7 := by
    by_cases hneg : v < 0
    · simp only [zeroPadded, if_pos hneg, List.length_append, List.length_replicate,
        List.length_singleton]
      omega
    · simp only [zeroPadded, if_neg hneg, List.length_append, List.length_replicate,
        List.length_nil]
      omega
  unfold microsecondText
  rcases hlength with hsix | hseven
  · rw [List.take_of_length_le (by rw [List.length_append, hsix]; decide)]
    exact takeWhile_ne_cons hblank []
  · rw [← hseven, List.take_left]
    exact takeWhile_ne_self hblank

/-- The fields of a local time with a year of four digits. -/
structure LocalTime.Regular (time : LocalTime) : Prop where
  year : 1000 ≤ time.year ∧ time.year ≤ 9999
  month : 1 ≤ time.month ∧ time.month ≤ 12
  day : 1 ≤ time.day ∧ time.day ≤ 31
  hour : 0 ≤ time.hour ∧ time.hour ≤ 23
  minute : 0 ≤ time.minute ∧ time.minute ≤ 59
  microsecond : time.microsecond.natAbs < 10 ^ 6

namespace LocalTime

variable {time other : LocalTime}

theorem Regular.length_year (htime : time.Regular) : (padded 4 time.year).length = 4 := by
  obtain ⟨hlow, hhigh⟩ := htime.year
  exact length_padded (by decide) (by omega) (by omega)

theorem length_two {v : ℤ} (hlow : 0 ≤ v) (hhigh : v ≤ 99) : (zeroPadded 2 v).length = 2 :=
  length_zeroPadded (by decide) hlow (by omega)

theorem Regular.length_fields (htime : time.Regular) :
    (zeroPadded 2 time.month).length = 2 ∧ (zeroPadded 2 time.day).length = 2 ∧
      (zeroPadded 2 time.hour).length = 2 ∧ (zeroPadded 2 time.minute).length = 2 := by
  obtain ⟨hmonth, hmonth'⟩ := htime.month
  obtain ⟨hday, hday'⟩ := htime.day
  obtain ⟨hhour, hhour'⟩ := htime.hour
  obtain ⟨hminute, hminute'⟩ := htime.minute
  exact ⟨length_two (by omega) (by omega), length_two (by omega) (by omega),
    length_two hhour (by omega), length_two hminute (by omega)⟩

/-- Two times are shown alike iff they differ at most in the seconds. -/
theorem Regular.shown_eq_iff (htime : time.Regular) (hother : other.Regular) :
    time.shown = other.shown ↔ { time with second := other.second } = other := by
  constructor
  · intro hshown
    obtain ⟨hmonth, hday, hhour, hminute⟩ := htime.length_fields
    obtain ⟨hmonth', hday', hhour', hminute'⟩ := hother.length_fields
    unfold shown at hshown
    obtain ⟨hyears, h⟩ := List.append_inj hshown (htime.length_year.trans hother.length_year.symm)
    obtain ⟨hmonths, h⟩ := List.append_inj (List.append_cancel_left h)
      (hmonth.trans hmonth'.symm)
    obtain ⟨hdays, h⟩ := List.append_inj (List.append_cancel_left h) (hday.trans hday'.symm)
    obtain ⟨hhours, h⟩ := List.append_inj (List.append_cancel_left h) (hhour.trans hhour'.symm)
    obtain ⟨hminutes, h⟩ := List.append_inj (List.append_cancel_left h)
      (hminute.trans hminute'.symm)
    have hmicros := congrArg (List.takeWhile (· ≠ chr ' ')) (List.append_cancel_left h)
    rw [takeWhile_microsecondText htime.microsecond,
      takeWhile_microsecondText hother.microsecond] at hmicros
    cases time
    cases other
    simp only [mk.injEq]
    exact ⟨padded_injective 4 hyears, zeroPadded_injective 2 hmonths,
      zeroPadded_injective 2 hdays, zeroPadded_injective 2 hhours,
      zeroPadded_injective 2 hminutes, trivial, zeroPadded_injective 6 hmicros⟩
  · intro hsame
    rw [← hsame]
    rfl

end LocalTime

namespace LogEnvironment

variable {env : LogEnvironment}

def localTime (env : LogEnvironment) : LocalTime :=
  let tm := env.localtime (secondsOf env.now)
  { year := tm.tm_year + 1900
    month := tm.tm_mon + 1
    day := tm.tm_mday
    hour := tm.tm_hour
    minute := tm.tm_min
    second := tm.tm_sec
    microsecond := microsecondsOf env.now }

/-- The C library gives valid fields and a year of four digits. -/
def InRange (env : LogEnvironment) : Prop :=
  (env.localtime (secondsOf env.now)).Valid ∧
    1000 ≤ env.localTime.year ∧ env.localTime.year ≤ 9999

theorem InRange.regular (henv : env.InRange) : env.localTime.Regular := by
  obtain ⟨hvalid, hyear⟩ := henv
  obtain ⟨hmon, hmon'⟩ := hvalid.mon
  have hmonth : env.localTime.month = (env.localtime (secondsOf env.now)).tm_mon + 1 := rfl
  have hmicro : (microsecondsOf env.now).natAbs = env.now.microSecondsSinceEpoch_.natAbs % 10 ^ 6 :=
    Int.natAbs_tmod _ _
  refine ⟨hyear, ⟨by omega, by omega⟩, hvalid.mday, hvalid.hour, hvalid.min, ?_⟩
  change (microsecondsOf env.now).natAbs < 10 ^ 6
  rw [hmicro]
  exact Nat.mod_lt _ (by decide)

/-- The 17 bytes that are copied end with the colon in front of the seconds. -/
theorem InRange.timePrefix_eq (henv : env.InRange) : env.timePrefix = env.localTime.shown := by
  have hyear := henv.regular.length_year
  obtain ⟨hmonth, hday, hhour, hminute⟩ := henv.regular.length_fields
  have hlength : (padded 4 env.localTime.year ++ [chr '/'] ++ zeroPadded 2 env.localTime.month ++
      [chr '/'] ++ zeroPadded 2 env.localTime.day ++ [chr ' '] ++
      zeroPadded 2 env.localTime.hour ++ [chr ':'] ++ zeroPadded 2 env.localTime.minute ++
      [chr ':']).length = 17 := by
    simp only [List.length_append, hyear, hmonth, hday, hhour, hminute, List.length_singleton]
  have htake : (timeText (env.localtime (secondsOf env.now))).take 17 = _ :=
    List.take_left' hlength
  unfold timePrefix LocalTime.shown
  rw [htake]
  simp only [List.append_assoc]
  rfl

/-- The time can be read back from what `formatTime` inserts, for every time
stamp of the set. -/
def Readable (S : Set LogEnvironment) : Prop :=
  ∃ decode : Bytes → LocalTime, ∀ env ∈ S, ∃ stream,
    env.formatTime (LogStream.create env.memory) = .ok stream ∧
      decode stream.buffer_.used = env.localTime

theorem readable_iff_factorsThrough (S : Set LogEnvironment) :
    Readable S ↔
      Function.FactorsThrough (fun env : S => env.1.localTime) (fun env : S => env.1.timePrefix) := by
  have hne : Nonempty LocalTime := ⟨⟨0, 0, 0, 0, 0, 0, 0⟩⟩
  rw [Function.factorsThrough_iff]
  constructor
  · rintro ⟨decode, hdecode⟩
    refine ⟨decode, funext ?_⟩
    rintro ⟨env, henv⟩
    obtain ⟨stream, hformat, htime⟩ := hdecode env henv
    obtain ⟨stream', hformat', hused⟩ := env.formatTime_create
    rw [hformat] at hformat'
    cases hformat'
    rw [← htime, hused]
    rfl
  · rintro ⟨decode, hdecode⟩
    refine ⟨decode, ?_⟩
    intro env henv
    obtain ⟨stream, hformat, hused⟩ := env.formatTime_create
    refine ⟨stream, hformat, ?_⟩
    rw [hused]
    exact (congrFun hdecode ⟨env, henv⟩).symm

/-- The time can be read back iff no two time stamps of the set differ in the
seconds of their local time alone. -/
theorem readable_iff {S : Set LogEnvironment} (hS : ∀ env ∈ S, env.InRange) :
    Readable S ↔ ∀ env ∈ S, ∀ other ∈ S,
      { env.localTime with second := other.localTime.second } = other.localTime →
        env.localTime = other.localTime := by
  have hshown : ∀ env ∈ S, ∀ other ∈ S, env.timePrefix = other.timePrefix ↔
      { env.localTime with second := other.localTime.second } = other.localTime := by
    intro env henv other hother
    rw [(hS env henv).timePrefix_eq, (hS other hother).timePrefix_eq]
    exact (hS env henv).regular.shown_eq_iff (hS other hother).regular
  rw [readable_iff_factorsThrough]
  constructor
  · intro hfactors env henv other hother hsame
    have htext : env.timePrefix = other.timePrefix := (hshown env henv other hother).mpr hsame
    exact @hfactors ⟨env, henv⟩ ⟨other, hother⟩ htext
  · rintro hapart ⟨env, henv⟩ ⟨other, hother⟩ htext
    exact hapart env henv other hother ((hshown env henv other hother).mp htext)

end LogEnvironment

/-- The first minute of 1970 in a zone without an offset. -/
def firstMinute (seconds : ℤ) : Tm := ⟨70, 0, 1, 0, 0, seconds⟩

def LogEnvironment.start (microseconds : ℤ) : LogEnvironment where
  now := ⟨microseconds⟩
  localtime := firstMinute
  getErrnoMsg := fun _ => []
  t_time := ⟨List.replicate 64 0, rfl⟩
  memory := ⟨List.replicate kSmallBuffer 0, List.length_replicate⟩

namespace LogEnvironment

theorem inRange_start {microseconds : ℤ} (hlow : 0 ≤ microseconds)
    (hhigh : microseconds < 60 * 10 ^ 6) : (start microseconds).InRange := by
  have hsecond : secondsOf (start microseconds).now = microseconds / 10 ^ 6 :=
    Int.tdiv_eq_ediv_of_nonneg hlow
  have htm : (start microseconds).localtime (secondsOf (start microseconds).now) =
      firstMinute (microseconds / 10 ^ 6) := congrArg firstMinute hsecond
  have hvalid : (firstMinute (microseconds / 10 ^ 6)).Valid := by
    constructor <;> simp only [firstMinute] <;> omega
  refine ⟨?_, ?_⟩
  · rw [htm]
    exact hvalid
  · change 1000 ≤ (70 : ℤ) + 1900 ∧ (70 : ℤ) + 1900 ≤ 9999
    decide

theorem readable_two : Readable {start 0, start 1000001} := by
  refine (readable_iff ?_).mpr ?_
  · rintro env (rfl | rfl)
    · exact inRange_start (by decide) (by decide)
    · exact inRange_start (by decide) (by decide)
  · rintro env (rfl | rfl) other (rfl | rfl) <;> decide

/-- One second after the start the record shows the same time. -/
theorem not_readable_next_second :
    (start 0).InRange ∧ (start 1000000).InRange ∧
      (start 0).timePrefix = ascii "1970/01/01 00:00:000000 " ∧
      (start 1000000).timePrefix = ascii "1970/01/01 00:00:000000 " ∧
      (start 0).localTime.second = 0 ∧ (start 1000000).localTime.second = 1 ∧
      ¬ Readable {start 0, start 1000000} := by
  have hfirst : (start 0).timePrefix = ascii "1970/01/01 00:00:000000 " := by decide +kernel
  have hsecond : (start 1000000).timePrefix = ascii "1970/01/01 00:00:000000 " := by
    decide +kernel
  refine ⟨inRange_start (by decide) (by decide), inRange_start (by decide) (by decide), hfirst,
    hsecond, by decide, by decide, ?_⟩
  rw [readable_iff_factorsThrough]
  intro hfactors
  have hsame := @hfactors ⟨start 0, .inl rfl⟩ ⟨start 1000000, .inr rfl⟩ (hfirst.trans hsecond.symm)
  exact absurd (congrArg LocalTime.second hsame) (by decide)

end LogEnvironment

end MyFileServer
