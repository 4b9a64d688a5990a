/-
# The circular log of `link_list/src/log.c`

`LOG_printf_info` keeps its log in one file: a header line with the offset the next
record goes to, and the records.  Each call reads the header, erases the old line at
that offset with spaces, writes its record there, and writes the new header over the old
one.  When the record would reach `MAX_LOG_SIZE`, it goes to the place behind the header.

All file operations succeed.  The state is the file, the static cursor and the level
that `LOG_set_level` sets.  What the function prints on the terminal is left out.
-/
import RouterTools.Stdio

namespace CircularLog

open CString Stdio

/-! ## Records -/

/-- `MAX_LOG_SIZE`. -/
def maxLogSize : ℕ := 104857

/-- `LOG_LVL_NONE` to `LOG_LVL_DEBUG`. -/
inductive Level where
  | none
  | error
  | warn
  | debug
  deriving DecidableEq, Repr

/-- The number of a level. -/
def Level.toNat : Level → ℕ
  | .none => 0
  | .error => 1
  | .warn => 2
  | .debug => 3

/-- `log_level_strings`. -/
def Level.string : Level → CString
  | .none => str "NONE"
  | .error => str "ERROR"
  | .warn => str "WARN"
  | .debug => str "DEBUG"

/-- The fields of `struct tm` that are printed, for a year of four digits. -/
structure CivilTime where
  year : ℕ
  month : ℕ
  day : ℕ
  hour : ℕ
  minute : ℕ
  second : ℕ
  year_ge : 1000 ≤ year
  year_lt : year < 10000
  month_le : month ≤ 12
  day_le : day ≤ 31
  hour_le : hour ≤ 23
  minute_le : minute ≤ 59
  second_le : second ≤ 60

/-- A number below 100 in two digits. -/
def twoDigits (n : ℕ) : CString := [UInt8.ofNat (48 + n / 10), UInt8.ofNat (48 + n % 10)]

/-- `strftime` with `%Y-%m-%d %H:%M:%S`. -/
def CivilTime.text (t : CivilTime) : CString :=
  decimal t.year ++ str "-" ++ twoDigits t.month ++ str "-" ++ twoDigits t.day ++ str " " ++
    twoDigits t.hour ++ str ":" ++ twoDigits t.minute ++ str ":" ++ twoDigits t.second

/-- `[%s] [%s] %s\n`. -/
def recordText (now : CivilTime) (level : Level) (text : CString) : CString :=
  str "[" ++ now.text ++ str "] [" ++ level.string ++ str "] " ++ text ++ [newline]

/-- `current_position = %ld\n`. -/
def headerLine (position : ℕ) : CString :=
  str "current_position = " ++ decimal position ++ [newline]

/-! ## `LOG_printf_info` -/

/-- A call: the level, the time of the clock and the formatted message. -/
structure LogCall where
  level : Level
  now : CivilTime
  message : CString
  noNul : 0 ∉ message

/-- `char buffer[1000]`, filled by `vsnprintf`. -/
def LogCall.buffer (call : LogCall) : CString := copyTo 1000 call.message

/-- The record of a call. -/
def LogCall.record (call : LogCall) : CString := recordText call.now call.level call.buffer

/-- The log file, if it exists, the static `current_position`, and `log_run_level`. -/
structure LogState where
  file : Option (List UInt8)
  currentPosition : ℤ
  logRunLevel : ℕ

/-- The format of both header reads. -/
def headerFormat : List Directive :=
  (str "current_position").map .literal ++ [.space, .literal 61, .space, .long, .space]

/-- The two reads of the header: the cursor, which stays where nothing is assigned, and
`header_size`. -/
def readHeader (bytes : List UInt8) (currentPosition : ℤ) : ℤ × ℕ :=
  let file : Stream := ⟨bytes, 0, true⟩
  let (file, values) := file.fscanf headerFormat
  let currentPosition := values.getLastD currentPosition
  let (file, values) := file.fscanf headerFormat
  (values.getLastD currentPosition, file.ftell)

/-- `current_position` and `header_size` after the part under `stat`. -/
def readPosition (s : LogState) : ℤ × ℕ :=
  match s.file with
  | some bytes =>
      let (currentPosition, headerSize) := readHeader bytes s.currentPosition
      if maxLogSize ≤ bytes.length then (headerSize, headerSize) else (currentPosition, headerSize)
  | none => (0, 0)

/-- The log opened with `"r+"`, or created with `"w"` and a header. -/
def openLog (file : Option (List UInt8)) (currentPosition : ℤ) (headerSize : ℕ) : Stream × ℤ :=
  match file with
  | some bytes => (⟨bytes, 0, true⟩, currentPosition)
  | none => ((⟨[], 0, false⟩ : Stream).fputs (headerLine headerSize), headerSize)

/-- The wrap test. -/
def wraps (currentPosition : ℤ) (record : CString) : Bool :=
  decide (maxLogSize ≤ currentPosition + record.length)

/-- The old line at the cursor, up to 999 bytes of it, is replaced by spaces. -/
def eraseLine (file : Stream) (currentPosition : ℤ) : Stream :=
  let file := file.fseek currentPosition
  let (file, bufferTemp) := file.fgets 1000
  let file := file.fseek currentPosition
  file.fputs (spaces (strlen bufferTemp))

/-- `current_position` at the write: the cursor that was read, or `header_size` when the
record would not fit. -/
def recordOffset (s : LogState) (call : LogCall) : ℤ :=
  let (currentPosition, headerSize) := readPosition s
  let (_, currentPosition) := openLog s.file currentPosition headerSize
  if wraps currentPosition call.record then headerSize else currentPosition

/-- `LOG_printf_info`. -/
def logPrintfInfo (s : LogState) (call : LogCall) : LogState :=
  if call.level.toNat ≤ s.logRunLevel then
    let (currentPosition, headerSize) := readPosition s
    let (file, _) := openLog s.file currentPosition headerSize
    let currentPosition := recordOffset s call
    let file := eraseLine file currentPosition
    let file := (file.fseek currentPosition).fputs call.record
    let currentPosition := file.ftell
    let file := (file.fseek 0).fputs (headerLine currentPosition)
    { s with file := some file.bytes, currentPosition := currentPosition }
  else s

/-- The state before the first call, without a log file. -/
def noLog (logRunLevel : ℕ) : LogState := ⟨none, 0, logRunLevel⟩

/-- The state after a sequence of calls. -/
def run (s : LogState) (calls : List LogCall) : LogState := calls.foldl logPrintfInfo s

/-! ## The shape of records and headers -/

theorem length_twoDigits (n : ℕ) : (twoDigits n).length = 2 := rfl

theorem CivilTime.length_text (t : CivilTime) : t.text.length = 19 := by
  have hyear : (decimal t.year).length = 4 := by
    have hle := (length_decimal_le_iff (n := t.year) (k := 4) (by omega)).mpr t.year_lt
    have hgt := mt (length_decimal_le_iff (n := t.year) (k := 3) (by omega)).mp
      (not_lt.mpr t.year_ge)
    omega
  have hdash : (str "-").length = 1 := by decide
  have hspace : (str " ").length = 1 := by decide
  have hcolon : (str ":").length = 1 := by decide
  simp only [CivilTime.text, List.length_append, length_twoDigits, hyear, hdash, hspace, hcolon]

theorem mem_twoDigits {n : ℕ} (hn : n < 100) {b : UInt8} (h : b ∈ twoDigits n) :
    ∃ d < 10, b = UInt8.ofNat (48 + d) := by
  rcases List.mem_cons.mp h with rfl | h
  · exact ⟨n / 10, by omega, rfl⟩
  · exact ⟨n % 10, by omega, List.mem_singleton.mp h⟩

/-- The time is digits and punctuation. -/
theorem CivilTime.not_mem_text (t : CivilTime) {b : UInt8}
    (hdigit : ∀ d < 10, b ≠ UInt8.ofNat (48 + d)) (hpunct : b ∉ str "- :") : b ∉ t.text := by
  have htwo : ∀ n < 100, b ∉ twoDigits n := by
    intro n hn hmem
    obtain ⟨d, hd, hb⟩ := mem_twoDigits hn hmem
    exact hdigit d hd hb
  have hyear : b ∉ decimal t.year := not_mem_decimal hdigit
  have hparts : b ∉ str "-" ∧ b ∉ str " " ∧ b ∉ str ":" := by
    have hsplit : str "- :" = str "-" ++ (str " " ++ str ":") := by decide
    rw [hsplit] at hpunct
    simpa only [List.mem_append, not_or] using hpunct
  have hmonth := htwo t.month (by have := t.month_le; omega)
  have hday := htwo t.day (by have := t.day_le; omega)
  have hhour := htwo t.hour (by have := t.hour_le; omega)
  have hminute := htwo t.minute (by have := t.minute_le; omega)
  have hsecond := htwo t.second (by have := t.second_le; omega)
  simp only [CivilTime.text, List.mem_append, not_or]
  exact ⟨⟨⟨⟨⟨⟨⟨⟨⟨⟨hyear, hparts.1⟩, hmonth⟩, hparts.1⟩, hday⟩, hparts.2.1⟩, hhour⟩, hparts.2.2⟩,
    hminute⟩, hparts.2.2⟩, hsecond⟩

theorem Level.length_string (level : Level) :
    4 ≤ level.string.length ∧ level.string.length ≤ 5 := by
  cases level <;> decide

theorem length_recordText (now : CivilTime) (level : Level) (text : CString) :
    (recordText now level text).length = 26 + level.string.length + text.length := by
  have h1 : (str "[").length = 1 := by decide
  have h2 : (str "] [").length = 3 := by decide
  have h3 : (str "] ").length = 2 := by decide
  simp only [recordText, List.length_append, now.length_text, h1, h2, h3, List.length_singleton]
  omega

/-- A record has between 30 and 1030 bytes. -/
theorem LogCall.length_record (call : LogCall) :
    30 ≤ call.record.length ∧ call.record.length ≤ 1030 := by
  have hlevel := call.level.length_string
  have hbuffer : call.buffer.length ≤ 999 := by
    rw [LogCall.buffer, copyTo, List.length_take]
    omega
  rw [LogCall.record, length_recordText]
  omega

theorem length_headerLine (n : ℕ) : (headerLine n).length = 20 + (decimal n).length := by
  have h : (str "current_position = ").length = 19 := by decide
  simp only [headerLine, List.length_append, h, List.length_singleton]
  omega

theorem length_headerLine_mono {m n : ℕ} (h : m ≤ n) :
    (headerLine m).length ≤ (headerLine n).length := by
  have hdigits := length_decimal_mono h
  rw [length_headerLine, length_headerLine]
  omega

/-- The header of an offset inside the file has at most 26 bytes. -/
theorem length_headerLine_le {n : ℕ} (h : n < 1000000) : (headerLine n).length ≤ 26 := by
  have hdigits := (length_decimal_le_iff (n := n) (k := 6) (by omega)).mpr h
  rw [length_headerLine]
  omega

theorem length_headerLine_ge (n : ℕ) : 21 ≤ (headerLine n).length := by
  have hpos : 0 < (decimal n).length := List.length_pos_iff.mpr (decimal_ne_nil n)
  rw [length_headerLine]
  omega

/-! ## One call -/

/-- What a call leaves in a file that has the given cursor: the old line erased, the
record over it, the new header over the front. -/
def written (file : List UInt8) (position : ℕ) (record : CString) : List UInt8 :=
  overwrite
    (overwrite (overwrite file position (spaces (strlen (readLine 999 (file.drop position)))))
      position record)
    0 (headerLine (position + record.length))

/-- The header scanned: its number, and what follows the white space after it. -/
theorem scanf_headerLine {n : ℕ} (hn : n < 2 ^ 63) (rest : List UInt8) :
    scanf headerFormat (headerLine n ++ rest) = ([(n : ℤ)], rest.dropWhile isspace) := by
  have hsplit : headerLine n ++ rest = str "current_position" ++
      (space :: 61 :: space :: (decimal n ++ newline :: rest)) := by
    have hstr : str "current_position = " = str "current_position" ++ [space, 61, space] := by
      decide
    rw [headerLine, hstr]
    simp only [List.append_assoc, List.cons_append, List.nil_append]
  -- the blank of the format ends at the first digit
  have hdigits : (space :: (decimal n ++ newline :: rest)).dropWhile isspace =
      decimal n ++ newline :: rest := by
    obtain ⟨b, ds, hds⟩ := List.exists_cons_of_ne_nil (decimal_ne_nil n)
    obtain ⟨d, hd, rfl⟩ := mem_decimal (b := b) (by rw [hds]; exact List.mem_cons_self)
    have hspace : ∀ d < 10, isspace (UInt8.ofNat (48 + d)) = false := by decide
    rw [List.dropWhile_cons_of_pos isspace_space, hds, List.cons_append,
      List.dropWhile_cons_of_neg (by rw [hspace d hd]; exact Bool.false_ne_true)]
  rw [headerFormat, hsplit, scanf_literals]
  show scanf [.literal 61, .space, .long, .space]
    (61 :: space :: (decimal n ++ newline :: rest)) = _
  rw [scanf, if_pos rfl, scanf, hdigits, scanf, scanLong_decimal hn (by decide)]
  rfl

/-- The header read back: the cursor, and the size up to the next byte that is not white
space, if that byte cannot start a second header. -/
theorem readHeader_headerLine {n : ℕ} (hn : n < 2 ^ 63) {rest : List UInt8}
    (hrest : (rest.dropWhile isspace).head? ≠ some 99) (currentPosition : ℤ) :
    readHeader (headerLine n ++ rest) currentPosition =
      ((n : ℤ), (headerLine n ++ rest).length - (rest.dropWhile isspace).length) := by
  have hfirst : scanf headerFormat (headerLine n ++ rest) = ([(n : ℤ)], rest.dropWhile isspace) :=
    scanf_headerLine hn rest
  -- the second `fscanf` stops at the first literal, and the position stays
  have hsecond : scanf headerFormat (rest.dropWhile isspace) = ([], rest.dropWhile isspace) :=
    scanf_literal_fails hrest
  have hsuffix : (rest.dropWhile isspace).length ≤ (headerLine n ++ rest).length := by
    have h := (List.dropWhile_suffix (l := rest) isspace).length_le
    rw [List.length_append]
    omega
  have hdrop : (headerLine n ++ rest).drop
      (0 + ((headerLine n ++ rest).length - (rest.dropWhile isspace).length)) =
        rest.dropWhile isspace := by
    obtain ⟨front, hfront⟩ :=
      (List.dropWhile_suffix (l := rest) isspace).trans (List.suffix_append (headerLine n) rest)
    have hlen : (headerLine n ++ rest).length - (rest.dropWhile isspace).length = front.length := by
      rw [← hfront, List.length_append]
      omega
    rw [Nat.zero_add, hlen, ← hfront, List.drop_left]
  unfold readHeader Stream.fscanf
  simp only [List.drop_zero, hfirst, hdrop, hsecond]
  rw [Stream.ftell]
  simp

theorem wraps_natCast (position : ℕ) (record : CString) :
    wraps (position : ℤ) record = true ↔ maxLogSize ≤ position + record.length := by
  rw [wraps, decide_eq_true_eq]
  omega

/-- Below the size limit the position is what the header read gives. -/
theorem readPosition_some {s : LogState} {file : List UInt8} {read : ℤ × ℕ}
    (hfile : s.file = some file) (hsize : file.length < maxLogSize)
    (hread : readHeader file s.currentPosition = read) : readPosition s = read := by
  rw [readPosition, hfile]
  dsimp only
  rw [hread, if_neg (by omega)]

/-- **A call on a file** below the size limit whose header gives the cursor. -/
theorem logPrintfInfo_some {s : LogState} {call : LogCall} {file : List UInt8}
    {position headerSize : ℕ} (henabled : call.level.toNat ≤ s.logRunLevel)
    (hfile : s.file = some file) (hsize : file.length < maxLogSize)
    (hread : readHeader file s.currentPosition = ((position : ℤ), headerSize)) :
    ∃ offset : ℕ,
      offset = (if maxLogSize ≤ position + call.record.length then headerSize else position) ∧
      recordOffset s call = offset ∧
      logPrintfInfo s call =
        { s with
          file := some (written file offset call.record)
          currentPosition := ((offset + call.record.length : ℕ) : ℤ) } := by
  have hpos := readPosition_some hfile hsize hread
  -- a wrap starts behind the header, any other record at the cursor
  have hoffset : recordOffset s call =
      ((if maxLogSize ≤ position + call.record.length then headerSize else position : ℕ) : ℤ) := by
    rw [recordOffset, hpos, hfile]
    dsimp only [openLog]
    by_cases h : maxLogSize ≤ position + call.record.length
    · rw [if_pos h, if_pos ((wraps_natCast _ _).mpr h)]
    · rw [if_neg h, if_neg (mt (wraps_natCast _ _).mp h)]
  refine ⟨_, rfl, hoffset, ?_⟩
  rw [logPrintfInfo, if_pos henabled, hoffset, hpos, hfile]
  dsimp only [openLog]
  generalize (if maxLogSize ≤ position + call.record.length then headerSize else position) = offset
  simp only [eraseLine, fseek_natCast, Stream.fgets, Stream.fputs, Stream.ftell]
  rfl

/-- **The first call** creates the file; its record starts at offset 0. -/
theorem logPrintfInfo_none {s : LogState} {call : LogCall}
    (henabled : call.level.toNat ≤ s.logRunLevel) (hfile : s.file = none) :
    recordOffset s call = 0 ∧
    logPrintfInfo s call =
      { s with
        file := some (overwrite call.record 0 (headerLine call.record.length))
        currentPosition := call.record.length } := by
  have hlen := call.length_record
  -- the record is longer than the 21 bytes of the first header
  have hcover : overwrite (headerLine 0) 0 call.record = call.record := by
    have hheader : (headerLine 0).length = 21 := by decide
    rw [overwrite_zero, List.drop_eq_nil_of_le (by omega), List.append_nil]
  have hoffset : recordOffset s call = ((0 : ℕ) : ℤ) := by
    rw [recordOffset, readPosition, hfile]
    dsimp only [openLog]
    rw [if_neg]
    rw [wraps_natCast, maxLogSize]
    omega
  have hcreate : overwrite [] 0 (headerLine 0) = headerLine 0 := by
    rw [overwrite_zero, List.drop_nil, List.append_nil]
  -- the new file is not readable, so that the line to erase is empty
  have herase : overwrite (headerLine 0) 0 (spaces (strlen [])) = headerLine 0 := by
    rw [overwrite_zero]
    rfl
  refine ⟨hoffset, ?_⟩
  rw [logPrintfInfo, if_pos henabled, hoffset, readPosition, hfile]
  dsimp only [openLog]
  simp only [eraseLine, fseek_natCast, Stream.fgets, Stream.fputs, Stream.ftell, hcreate,
    Bool.false_eq_true, if_false, herase, hcover, Nat.zero_add]
  rfl

theorem logPrintfInfo_logRunLevel (s : LogState) (call : LogCall) :
    (logPrintfInfo s call).logRunLevel = s.logRunLevel := by
  unfold logPrintfInfo
  split <;> rfl

theorem run_concat (s : LogState) (calls : List LogCall) (call : LogCall) :
    run s (calls ++ [call]) = logPrintfInfo (run s calls) call := by
  rw [run, List.foldl_append]
  rfl

theorem run_logRunLevel (s : LogState) (calls : List LogCall) :
    (run s calls).logRunLevel = s.logRunLevel := by
  induction calls generalizing s with
  | nil => rfl
  | cons call calls ih => exact (ih (logPrintfInfo s call)).trans (logPrintfInfo_logRunLevel s call)

end CircularLog
