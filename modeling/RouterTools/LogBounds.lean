/-
# The log file is bounded, and its cursor stays inside it

The header has between 22 and 26 bytes, and byte 26 is one of the first record written
behind it.  That byte is neither white space nor the letter `c`, and no `c` stands
between the header and it; so the header read stops there at the latest, and the second
read finds no header.  `CursorOk` says so; every call keeps it.
-/
import Mathlib.Data.List.Induction
import RouterTools.CircularLog

namespace CircularLog

open CString Stdio

/-! ## The invariant -/

/-- A byte that stops the header read. -/
def Stops (b : UInt8) : Prop := isspace b = false ∧ b ≠ 99

/-- A log file with cursor `n`: the header, possibly the rest of a longer header, and
behind these 26 bytes a byte that stops the header read. -/
structure CursorOk (file : List UInt8) (n : ℕ) : Prop where
  shape : ∃ residue b rest, file = headerLine n ++ residue ++ b :: rest ∧
    (headerLine n ++ residue).length = 26 ∧ 99 ∉ residue ∧ Stops b
  ge : 30 ≤ n
  le : n ≤ file.length
  lt : file.length < maxLogSize

theorem dropWhile_append_cons {p : UInt8 → Bool} {b : UInt8} (hb : p b = false)
    (l rest : List UInt8) : (l ++ b :: rest).dropWhile p = l.dropWhile p ++ b :: rest := by
  induction l with
  | nil => exact List.dropWhile_cons_of_neg (by simp [hb])
  | cons a l ih =>
      rw [List.cons_append, List.dropWhile_cons, List.dropWhile_cons]
      split
      · exact ih
      · rfl

/-- **The header read** gives the cursor and a header size of at most 26; exactly 26 when
the header is that long. -/
theorem CursorOk.readHeader {file : List UInt8} {n : ℕ} (h : CursorOk file n) :
    ∃ headerSize ≤ 26, (∀ position, readHeader file position = ((n : ℤ), headerSize)) ∧
      ((headerLine n).length = 26 → headerSize = 26) := by
  obtain ⟨residue, b, rest, hfile, hlen, hresidue, hspace, hb⟩ := h.shape
  have hdrop : (residue ++ b :: rest).dropWhile isspace =
      residue.dropWhile isspace ++ b :: rest := dropWhile_append_cons hspace residue rest
  -- what follows the white space cannot start a second header
  have hhead : ((residue ++ b :: rest).dropWhile isspace).head? ≠ some 99 := by
    rw [hdrop]
    cases hres : residue.dropWhile isspace with
    | nil => simpa using hb
    | cons c cs =>
        intro heq
        apply hresidue
        apply (List.dropWhile_suffix (l := residue) isspace).subset
        rw [hres]
        rw [List.cons_append, List.head?_cons, Option.some.injEq] at heq
        rw [heq]
        exact List.mem_cons_self
  have hn : n < 2 ^ 63 := by
    have h1 := h.le
    have h2 := h.lt
    rw [maxLogSize] at h2
    omega
  have hsuffix := (List.dropWhile_suffix (l := residue) isspace).length_le
  have hsize : (headerLine n ++ (residue ++ b :: rest)).length -
      ((residue ++ b :: rest).dropWhile isspace).length =
        26 - (residue.dropWhile isspace).length := by
    rw [hdrop]
    simp only [List.length_append, List.length_cons] at hlen ⊢
    omega
  refine ⟨26 - (residue.dropWhile isspace).length, by omega, fun position => ?_, ?_⟩
  · rw [hfile, List.append_assoc, readHeader_headerLine hn hhead position, hsize]
  · intro hfull
    rw [List.length_append] at hlen
    omega

/-! ## Writing the header -/

/-- A header that is written over the first 26 bytes. -/
theorem cursorOk_overwrite {front rest : List UInt8} {b : UInt8} {n : ℕ}
    (hfront : front.length = 26) (hresidue : 99 ∉ front.drop (headerLine n).length)
    (hb : Stops b) (hge : 30 ≤ n) (hle : n ≤ (front ++ b :: rest).length)
    (hlt : (front ++ b :: rest).length < maxLogSize) :
    CursorOk (overwrite (front ++ b :: rest) 0 (headerLine n)) n := by
  have hheader : (headerLine n).length ≤ 26 := by
    apply length_headerLine_le
    rw [maxLogSize] at hlt
    omega
  have hlen : (overwrite (front ++ b :: rest) 0 (headerLine n)).length =
      (front ++ b :: rest).length := by
    rw [length_overwrite (Nat.zero_le _)]
    rw [List.length_append, hfront] at *
    omega
  constructor
  · refine ⟨front.drop (headerLine n).length, b, rest, ?_, ?_, hresidue, hb⟩
    · rw [overwrite_zero, List.drop_append_of_le_length (by omega), List.append_assoc]
    · rw [List.length_append, List.length_drop]
      omega
  · exact hge
  · rw [hlen]
    exact hle
  · rw [hlen]
    exact hlt

/-! ## Writing a record -/

theorem readLine_isPrefix (n : ℕ) (s : List UInt8) : readLine n s <+: s := by
  induction n generalizing s with
  | zero => exact List.nil_prefix
  | succ n ih =>
      cases s with
      | nil => exact List.nil_prefix
      | cons b s =>
          rw [readLine]
          split
          · exact ⟨s, rfl⟩
          · exact List.cons_prefix_cons.mpr ⟨rfl, ih s⟩

/-- What is erased is in the file. -/
theorem length_erased (file : List UInt8) (pos : ℕ) :
    (spaces (strlen (readLine 999 (file.drop pos)))).length ≤ (file.drop pos).length := by
  rw [length_spaces, strlen]
  exact (List.takeWhile_prefix _).length_le.trans (readLine_isPrefix _ _).length_le

/-- The file once the record is written. -/
def recorded (file : List UInt8) (position : ℕ) (record : CString) : List UInt8 :=
  overwrite (overwrite file position (spaces (strlen (readLine 999 (file.drop position)))))
    position record

theorem written_eq (file : List UInt8) (position : ℕ) (record : CString) :
    written file position record =
      overwrite (recorded file position record) 0 (headerLine (position + record.length)) := rfl

theorem length_recorded {file : List UInt8} {position : ℕ} (h : position ≤ file.length)
    (record : CString) :
    (recorded file position record).length = max file.length (position + record.length) := by
  have herased := length_erased file position
  have hlen : (overwrite file position
      (spaces (strlen (readLine 999 (file.drop position))))).length = file.length := by
    rw [length_overwrite h]
    rw [List.length_drop] at herased
    omega
  rw [recorded, length_overwrite (by rw [hlen]; exact h), hlen]

/-- Behind a part of the file the record is written as in a file of its own. -/
theorem recorded_append (front file : List UInt8) (k : ℕ) (record : CString) :
    recorded (front ++ file) (front.length + k) record = front ++ recorded file k record := by
  rw [recorded, List.drop_length_add_append, overwrite_append, overwrite_append]
  rfl

/-- A record starts with 22 bytes of time and four bytes of level without a `c`; the byte
after them stops the header read. -/
theorem LogCall.record_front (call : LogCall) :
    ∃ front b rest, call.record = front ++ b :: rest ∧ front.length = 26 ∧
      99 ∉ front.drop 22 ∧ Stops b := by
  have hsplit : ∃ (l : CString) (b : UInt8) (rest : CString),
      str "[" ++ call.level.string ++ str "] " = l ++ b :: rest ∧ l.length = 4 ∧ 99 ∉ l ∧ Stops b := by
    cases call.level with
    | none => exact ⟨str "[NON", 69, str "] ", by decide, by decide, by decide, by decide, by decide⟩
    | error => exact ⟨str "[ERR", 79, str "R] ", by decide, by decide, by decide, by decide, by decide⟩
    | warn => exact ⟨str "[WAR", 78, str "] ", by decide, by decide, by decide, by decide, by decide⟩
    | debug => exact ⟨str "[DEB", 85, str "G] ", by decide, by decide, by decide, by decide, by decide⟩
  obtain ⟨l, b, rest, hl, hlen, hmem, hstops⟩ := hsplit
  -- the time is 22 bytes, and the level begins with four more
  have htime : (str "[" ++ call.now.text ++ str "] ").length = 22 := by
    have h1 : (str "[").length = 1 := by decide
    have h2 : (str "] ").length = 2 := by decide
    rw [List.length_append, List.length_append, call.now.length_text, h1, h2]
  refine ⟨(str "[" ++ call.now.text ++ str "] ") ++ l, b, rest ++ (call.buffer ++ [newline]),
    ?_, ?_, ?_, hstops⟩
  · have hbracket : str "] [" = str "] " ++ str "[" := by decide
    rw [LogCall.record, recordText, hbracket]
    calc str "[" ++ call.now.text ++ (str "] " ++ str "[") ++ call.level.string ++ str "] " ++
          call.buffer ++ [newline]
        = (str "[" ++ call.now.text ++ str "] ") ++
            (str "[" ++ call.level.string ++ str "] ") ++ (call.buffer ++ [newline]) := by
          simp only [List.append_assoc]
      _ = _ := by
          rw [hl]
          simp only [List.append_assoc, List.cons_append]
  · rw [List.length_append, htime, hlen]
  · rw [← htime, List.drop_left]
    exact hmem

/-- A record starts with a bracket. -/
theorem LogCall.record_eq_cons (call : LogCall) : ∃ rest, call.record = 91 :: rest :=
  ⟨_, rfl⟩

/-- Writing a record at the front, or behind a byte that stops the header read, leaves
such a byte at the front. -/
theorem recorded_stops {b : UInt8} (hb : Stops b) (rest : List UInt8) (k : ℕ) (call : LogCall) :
    ∃ b' rest', recorded (b :: rest) k call.record = b' :: rest' ∧ Stops b' := by
  cases k with
  | zero =>
      obtain ⟨text, htext⟩ := call.record_eq_cons
      rw [recorded, overwrite_zero, htext, List.cons_append]
      exact ⟨91, _, rfl, by decide, by decide⟩
  | succ k =>
      refine ⟨b, recorded rest k call.record, ?_, hb⟩
      rw [Nat.add_comm k 1]
      exact recorded_append [b] rest k call.record

/-- No `c` stands behind the first 19 bytes of the header. -/
theorem not_mem_front {n : ℕ} {residue : List UInt8} (h : 99 ∉ residue) {k : ℕ} (hk : 19 ≤ k) :
    99 ∉ (headerLine n ++ residue).drop k := by
  have hstr : (str "current_position = ").length = 19 := by decide
  have hsplit : (headerLine n ++ residue).drop 19 = decimal n ++ [newline] ++ residue := by
    rw [headerLine, List.append_assoc, List.append_assoc, ← hstr, List.drop_left,
      List.append_assoc]
  have hdigits : 99 ∉ decimal n := not_mem_decimal (by decide)
  intro hmem
  have hsuffix : (headerLine n ++ residue).drop k <:+ (headerLine n ++ residue).drop 19 := by
    obtain ⟨j, rfl⟩ := Nat.exists_eq_add_of_le hk
    rw [← List.drop_drop]
    exact List.drop_suffix _ _
  have hmem' := hsuffix.subset hmem
  rw [hsplit] at hmem'
  simp only [List.mem_append, List.mem_singleton] at hmem'
  rcases hmem' with (h' | h') | h'
  · exact hdigits h'
  · exact absurd h' (by decide)
  · exact h h'

/-! ## One call -/

/-- **The first call** leaves a file of the invariant. -/
theorem logPrintfInfo_none_cursorOk {s : LogState} {call : LogCall}
    (henabled : call.level.toNat ≤ s.logRunLevel) (hfile : s.file = none) :
    recordOffset s call = 0 ∧
      ∃ file, (logPrintfInfo s call).file = some file ∧ CursorOk file call.record.length := by
  obtain ⟨hoffset, hcall⟩ := logPrintfInfo_none henabled hfile
  refine ⟨hoffset, _, by rw [hcall], ?_⟩
  obtain ⟨front, b, rest, hrecord, hfront, hmem, hb⟩ := call.record_front
  have hlen := call.length_record
  have hheader : 22 ≤ (headerLine call.record.length).length := by
    have h := length_headerLine_mono (m := 10) (n := call.record.length) (by omega)
    have h10 : (headerLine 10).length = 22 := by decide
    omega
  rw [hrecord] at hlen hheader ⊢
  apply cursorOk_overwrite hfront _ hb hlen.1 le_rfl (by rw [maxLogSize]; omega)
  intro h
  apply hmem
  obtain ⟨j, hj⟩ := Nat.exists_eq_add_of_le hheader
  rw [hj, ← List.drop_drop] at h
  exact List.mem_of_mem_drop h

/-- **A call on a file of the invariant** writes its record where it fits, and keeps the
invariant. -/
theorem CursorOk.logPrintfInfo {s : LogState} {call : LogCall} {file : List UInt8} {n : ℕ}
    (h : CursorOk file n) (henabled : call.level.toNat ≤ s.logRunLevel)
    (hfile : s.file = some file) :
    ∃ offset : ℕ, recordOffset s call = offset ∧ offset + call.record.length < maxLogSize ∧
      (offset = n ∨ maxLogSize ≤ n + call.record.length) ∧
      (logPrintfInfo s call).file = some (written file offset call.record) ∧
      CursorOk (written file offset call.record) (offset + call.record.length) := by
  have hlen := call.length_record
  obtain ⟨headerSize, -, hread, hfull⟩ := h.readHeader
  obtain ⟨offset, hoffset, hrecord, hcall⟩ :=
    logPrintfInfo_some henabled hfile h.lt (hread s.currentPosition)
  have hge := h.ge
  have hle := h.le
  have hlt := h.lt
  -- the cursor has six digits when the record does not fit, and the header 26 bytes
  have hcases : (offset = n ∧ n + call.record.length < maxLogSize) ∨
      (offset = 26 ∧ maxLogSize ≤ n + call.record.length) := by
    by_cases hwrap : maxLogSize ≤ n + call.record.length
    · rw [if_pos hwrap] at hoffset
      have hdigits := mt (length_decimal_le_iff (n := n) (k := 5) (by omega)).mp
        (by rw [maxLogSize] at hwrap; omega)
      have hheader : (headerLine n).length = 26 := by
        have hle := length_headerLine_le (n := n) (by rw [maxLogSize] at hlt; omega)
        rw [length_headerLine] at hle ⊢
        omega
      exact .inr ⟨hoffset.trans (hfull hheader), hwrap⟩
    · rw [if_neg hwrap] at hoffset
      exact .inl ⟨hoffset, by omega⟩
  have hfits : offset + call.record.length < maxLogSize := by
    rcases hcases with ⟨rfl, hfit⟩ | ⟨rfl, -⟩
    · exact hfit
    · rw [maxLogSize]
      omega
  refine ⟨offset, hrecord, hfits, ?_, by rw [hcall], ?_⟩
  · rcases hcases with ⟨heq, -⟩ | ⟨-, hwrap⟩
    · exact .inl heq
    · exact .inr hwrap
  · have hinside : offset ≤ file.length := by
      rcases hcases with ⟨rfl, -⟩ | ⟨rfl, -⟩ <;> omega
    obtain ⟨residue, b, rest, hshape, hfront, hresidue, hb⟩ := h.shape
    obtain ⟨k, hk⟩ : ∃ k, offset = (headerLine n ++ residue).length + k := by
      refine ⟨offset - 26, ?_⟩
      rw [hfront]
      rcases hcases with ⟨rfl, -⟩ | ⟨rfl, -⟩ <;> omega
    have hrecorded : (recorded file offset call.record).length =
        max file.length (offset + call.record.length) := length_recorded hinside call.record
    obtain ⟨b', rest', hstops, hb'⟩ := recorded_stops hb rest k call
    have heq : recorded file offset call.record = headerLine n ++ residue ++ b' :: rest' := by
      rw [hshape, hk, recorded_append, hstops]
    rw [heq] at hrecorded
    rw [written_eq, heq]
    apply cursorOk_overwrite hfront _ hb' (by omega) (by rw [hrecorded]; omega)
      (by rw [hrecorded]; omega)
    exact not_mem_front hresidue (by have := length_headerLine_ge (offset + call.record.length); omega)

/-! ## Runs -/

/-- **The log after a sequence of calls**: a file of the invariant, with the static cursor
at its cursor, once there was a call. -/
theorem run_cursorOk {logRunLevel : ℕ} {calls : List LogCall}
    (henabled : ∀ call ∈ calls, call.level.toNat ≤ logRunLevel) (hne : calls ≠ []) :
    ∃ file n, (run (noLog logRunLevel) calls).file = some file ∧ CursorOk file n := by
  induction calls using List.reverseRecOn with
  | nil => exact absurd rfl hne
  | append_singleton calls call ih =>
      have hlevel : call.level.toNat ≤ (run (noLog logRunLevel) calls).logRunLevel := by
        rw [run_logRunLevel]
        exact henabled call (by simp)
      rw [run_concat]
      by_cases hnil : calls = []
      · subst hnil
        obtain ⟨-, file, hfile, hok⟩ := logPrintfInfo_none_cursorOk hlevel rfl
        exact ⟨file, _, hfile, hok⟩
      · obtain ⟨file, n, hfile, hok⟩ := ih (fun c hc => henabled c (by simp [hc])) hnil
        obtain ⟨offset, -, -, -, hfile', hok'⟩ := hok.logPrintfInfo hlevel hfile
        exact ⟨_, _, hfile', hok'⟩

/-- Every record fits below the limit at the offset it is written at. -/
theorem recordOffset_fits {logRunLevel : ℕ} {calls : List LogCall}
    (henabled : ∀ call ∈ calls, call.level.toNat ≤ logRunLevel) {call : LogCall}
    (hlevel : call.level.toNat ≤ logRunLevel) :
    0 ≤ recordOffset (run (noLog logRunLevel) calls) call ∧
      recordOffset (run (noLog logRunLevel) calls) call + call.record.length < maxLogSize := by
  have hlen := call.length_record
  have hlevel' : call.level.toNat ≤ (run (noLog logRunLevel) calls).logRunLevel := by
    rw [run_logRunLevel]
    exact hlevel
  by_cases hnil : calls = []
  · subst hnil
    rw [(logPrintfInfo_none hlevel' rfl).1, maxLogSize]
    omega
  · obtain ⟨file, n, hfile, hok⟩ := run_cursorOk henabled hnil
    obtain ⟨offset, hoffset, hfits, -⟩ := hok.logPrintfInfo hlevel' hfile
    rw [hoffset]
    omega

/-- **The log file is bounded and its cursor stays inside it.**  After every sequence of
enabled calls from no log file, once there was a call: the file starts with the header of
a cursor inside the file and is shorter than the limit, so that the reset on its size is
never taken; and the next header read, whatever the static cursor, gives that cursor and
a header size of at most 26.  Before every call the offset its record is written at leaves
room for it below the limit. -/
theorem log_file_bounded (logRunLevel : ℕ) (calls : List LogCall)
    (henabled : ∀ call ∈ calls, call.level.toNat ≤ logRunLevel) :
    (calls ≠ [] → ∃ file n headerSize, (run (noLog logRunLevel) calls).file = some file ∧
      headerLine n <+: file ∧ n ≤ file.length ∧ file.length < maxLogSize ∧ headerSize ≤ 26 ∧
      ∀ position, readHeader file position = ((n : ℤ), headerSize)) ∧
    (∀ call : LogCall, call.level.toNat ≤ logRunLevel →
      0 ≤ recordOffset (run (noLog logRunLevel) calls) call ∧
        recordOffset (run (noLog logRunLevel) calls) call + call.record.length < maxLogSize) := by
  constructor
  · intro hne
    obtain ⟨file, n, hfile, hok⟩ := run_cursorOk henabled hne
    obtain ⟨headerSize, hsize, hread, -⟩ := hok.readHeader
    obtain ⟨residue, b, rest, hshape, -⟩ := hok.shape
    refine ⟨file, n, headerSize, hfile, ?_, hok.le, hok.lt, hsize, hread⟩
    rw [hshape, List.append_assoc]
    exact List.prefix_append _ _
  · exact fun call hlevel => recordOffset_fits henabled hlevel

/-- A call at noon on the first of January 2025. -/
def noonCall (level : Level) (text : String) (noNul : 0 ∉ str text) : LogCall where
  level := level
  now := ⟨2025, 1, 1, 12, 0, 0, by decide, by decide, by decide, by decide, by decide, by decide,
    by decide⟩
  message := str text
  noNul := noNul

/-- A log of two calls, the first with a newline in its message. -/
theorem log_file_bounded_sample :
    ∃ file n headerSize,
      (run (noLog 3) [noonCall .debug "a\nb" (by decide), noonCall .warn "" (by decide)]).file =
        some file ∧
      headerLine n <+: file ∧ n ≤ file.length ∧ file.length < maxLogSize ∧ headerSize ≤ 26 ∧
      ∀ position, readHeader file position = ((n : ℤ), headerSize) :=
  (log_file_bounded 3 [noonCall .debug "a\nb" (by decide), noonCall .warn "" (by decide)]
    (by intro call hcall; simp at hcall; rcases hcall with rfl | rfl <;> decide)).1 (by simp)

end CircularLog
