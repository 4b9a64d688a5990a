/-
# The log over the lives of the program

The static cursor is read back from the file in every call, so it does not matter when the
program is started anew or its level is set: the file is the one that the calls that were let
through leave in a single life (`log_survives_restarts`).  Behind byte 26 it is a text of
records written round and round (`log_refines_ring`), and so a record stays in it, whole, until
a hundred thousand bytes have followed it (`log_keeps_recent`).
-/
import RouterTools.LogAppend
import RouterTools.RecordRing

namespace CircularLog

open CString Stdio RecordRing

/-! ## Lives of the program -/

/-- The level that `LOG_set_level` sets. -/
def setLevel (level : ℤ) : ℕ := if 0 ≤ level ∧ level ≤ 3 then level.toNat else 1

/-- What happens to the log: a call, `LOG_set_level`, and a new start of the program. -/
inductive Event where
  | call (call : LogCall)
  | setLevel (level : ℤ)
  | start

/-- `log_run_level` after an event; a new start finds it zero. -/
def levelAfter (logRunLevel : ℕ) : Event → ℕ
  | .call _ => logRunLevel
  | .setLevel level => setLevel level
  | .start => 0

/-- An event; the static variables of a program that starts are zero. -/
def LogState.event (s : LogState) : Event → LogState
  | .call call => logPrintfInfo s call
  | .setLevel level => { s with logRunLevel := levelAfter s.logRunLevel (.setLevel level) }
  | .start => { s with currentPosition := 0, logRunLevel := levelAfter s.logRunLevel .start }

/-- The state after a sequence of events. -/
def runEvents (s : LogState) (events : List Event) : LogState := events.foldl LogState.event s

/-- The calls that are let through. -/
def logged : ℕ → List Event → List LogCall
  | _, [] => []
  | logRunLevel, .call call :: events =>
      if call.level.toNat ≤ logRunLevel then call :: logged logRunLevel events
      else logged logRunLevel events
  | logRunLevel, event :: events => logged (levelAfter logRunLevel event) events

theorem event_logRunLevel (s : LogState) (event : Event) :
    (s.event event).logRunLevel = levelAfter s.logRunLevel event := by
  cases event with
  | call call => exact logPrintfInfo_logRunLevel s call
  | setLevel level => rfl
  | start => rfl

/-! ## One call on the file -/

/-- What is known of the log file: there is none, or its cursor is in order. -/
def FileOk (file : Option (List UInt8)) : Prop :=
  file = none ∨ ∃ bytes n, file = some bytes ∧ CursorOk bytes n

/-- **The offset of a record** depends on the file alone: the cursor, or byte 26 where the
record does not fit. -/
theorem CursorOk.recordOffset_eq {s : LogState} {call : LogCall} {file : List UInt8} {n : ℕ}
    (h : CursorOk file n) (henabled : call.level.toNat ≤ s.logRunLevel)
    (hfile : s.file = some file) :
    recordOffset s call =
      ((if maxLogSize ≤ n + call.record.length then 26 else n : ℕ) : ℤ) := by
  obtain ⟨headerSize, -, hread, hfull⟩ := h.readHeader
  obtain ⟨offset, hoffset, hrecord, -⟩ :=
    logPrintfInfo_some henabled hfile h.lt (hread s.currentPosition)
  have hle := h.le
  have hlt := h.lt
  have hlen := call.length_record
  rw [hrecord, hoffset]
  by_cases hwrap : maxLogSize ≤ n + call.record.length
  · -- the cursor has six digits
    have hdigits := mt (length_decimal_le_iff (n := n) (k := 5) (by omega)).mp
      (by rw [maxLogSize] at hwrap; omega)
    have hheader : (headerLine n).length = 26 := by
      have hle := length_headerLine_le (n := n) (by rw [maxLogSize] at hlt; omega)
      rw [length_headerLine] at hle ⊢
      omega
    rw [if_pos hwrap, if_pos hwrap, hfull hheader]
  · rw [if_neg hwrap, if_neg hwrap]

/-- The file after a call. -/
theorem CursorOk.file_eq {s : LogState} {call : LogCall} {file : List UInt8} {n : ℕ}
    (h : CursorOk file n) (henabled : call.level.toNat ≤ s.logRunLevel)
    (hfile : s.file = some file) {offset : ℕ}
    (hoffset : offset = if maxLogSize ≤ n + call.record.length then 26 else n) :
    (CircularLog.logPrintfInfo s call).file = some (written file offset call.record) ∧
      CursorOk (written file offset call.record) (offset + call.record.length) ∧
      offset ≤ file.length := by
  obtain ⟨offset', hrecord, -, -, hfile', hok'⟩ := h.logPrintfInfo henabled hfile
  rw [h.recordOffset_eq henabled hfile, ← hoffset] at hrecord
  obtain rfl : offset = offset' := by exact_mod_cast hrecord
  refine ⟨hfile', hok', ?_⟩
  have hge := h.ge
  have hle := h.le
  rw [hoffset]
  split <;> omega

theorem logPrintfInfo_of_not_enabled {s : LogState} {call : LogCall}
    (h : ¬ call.level.toNat ≤ s.logRunLevel) : logPrintfInfo s call = s := if_neg h

theorem FileOk.call {s : LogState} (call : LogCall) (h : FileOk s.file) :
    FileOk (logPrintfInfo s call).file := by
  by_cases henabled : call.level.toNat ≤ s.logRunLevel
  · rcases h with hnone | ⟨file, n, hfile, hok⟩
    · obtain ⟨-, file, hfile, hok⟩ := logPrintfInfo_none_cursorOk henabled hnone
      exact .inr ⟨file, _, hfile, hok⟩
    · obtain ⟨hfile', hok', -⟩ := hok.file_eq henabled hfile rfl
      exact .inr ⟨_, _, hfile', hok'⟩
  · rw [logPrintfInfo_of_not_enabled henabled]
    exact h

/-- **The static cursor does not matter.** -/
theorem FileOk.call_congr {s t : LogState} {call : LogCall} (h : FileOk s.file)
    (hfile : s.file = t.file) (hs : call.level.toNat ≤ s.logRunLevel)
    (ht : call.level.toNat ≤ t.logRunLevel) :
    (logPrintfInfo s call).file = (logPrintfInfo t call).file := by
  rcases h with hnone | ⟨file, n, hsome, hok⟩
  · rw [(logPrintfInfo_none hs hnone).2, (logPrintfInfo_none ht (hfile ▸ hnone)).2]
  · rw [(hok.file_eq hs hsome rfl).1, (hok.file_eq ht (hfile ▸ hsome) rfl).1]

/-! ## Restarts -/

/-- Every level is at most that of all messages. -/
theorem Level.toNat_le (level : Level) : level.toNat ≤ 3 := by
  cases level <;> decide

theorem runEvents_file (s t : LogState) (h : FileOk s.file) (hfile : s.file = t.file)
    (ht : t.logRunLevel = 3) (events : List Event) :
    (runEvents s events).file = (run t (logged s.logRunLevel events)).file := by
  induction events generalizing s t with
  | nil => exact hfile
  | cons event events ih =>
      have hlevel := event_logRunLevel s event
      cases event with
      | call call =>
          have hok : FileOk (s.event (.call call)).file := h.call call
          rw [logged]
          by_cases henabled : call.level.toNat ≤ s.logRunLevel
          · have hall : call.level.toNat ≤ t.logRunLevel := by
              rw [ht]
              exact call.level.toNat_le
            have hsame : (s.event (.call call)).file = (logPrintfInfo t call).file :=
              h.call_congr hfile henabled hall
            have hrest := ih _ (logPrintfInfo t call) hok hsame
              ((logPrintfInfo_logRunLevel t call).trans ht)
            rw [hlevel] at hrest
            rw [if_pos henabled]
            exact hrest
          · have hsame : s.event (.call call) = s := logPrintfInfo_of_not_enabled henabled
            rw [if_neg henabled]
            show (runEvents (s.event (.call call)) events).file = _
            rw [hsame]
            exact ih s t h hfile ht
      | setLevel level =>
          have hrest := ih (s.event (.setLevel level)) t h hfile ht
          rwa [hlevel] at hrest
      | start =>
          have hrest := ih (s.event .start) t h hfile ht
          rwa [hlevel] at hrest

/-- **Restarts leave no trace in the log.**  After any sequence of calls, of settings of the
level and of new starts of the program, from no log file, the file is the one that the calls
that were let through leave in one life of the program. -/
theorem log_survives_restarts (events : List Event) :
    (runEvents (noLog 0) events).file = (run (noLog 3) (logged 0 events)).file :=
  runEvents_file (noLog 0) (noLog 3) (.inl rfl) rfl rfl events

/-! ## The ring of records -/

/-- The layout of the log file behind its header. -/
def layout : Layout LogCall UInt8 where
  encode := LogCall.record
  front := 26
  limit := maxLogSize
  gap := 999
  longest := 1030
  front_le := fun call => by
    have hlen := call.length_record
    omega
  le_longest := fun call => call.length_record.2

/-- The ring of the calls. -/
def ringOf (calls : List LogCall) : Laps LogCall := calls.foldl (Laps.push layout) Laps.empty

theorem ringOf_concat (calls : List LogCall) (call : LogCall) :
    ringOf (calls ++ [call]) = (ringOf calls).push layout call := by
  rw [ringOf, List.foldl_append, List.foldl_cons, List.foldl_nil, ← ringOf]

theorem ringOf_written (calls : List LogCall) : (ringOf calls).written = calls := by
  rw [ringOf, Laps.written_foldl]
  rfl

theorem length_readLine_le (n : ℕ) (s : List UInt8) : (readLine n s).length ≤ n := by
  induction n generalizing s with
  | zero => exact le_rfl
  | succ n ih =>
      cases s with
      | nil => exact Nat.zero_le _
      | cons b s =>
          rw [readLine]
          split
          · exact Nat.succ_le_succ (Nat.zero_le n)
          · exact Nat.succ_le_succ (ih s)

/-- What lies behind a text that is written. -/
theorem drop_overwrite {file text : List UInt8} {pos k : ℕ} (hpos : pos ≤ file.length)
    (hk : pos + text.length ≤ k) : (overwrite file pos text).drop k = file.drop k := by
  obtain ⟨j, rfl⟩ := Nat.exists_eq_add_of_le hk
  have hlen : (file.take pos ++ text).length = pos + text.length := by
    rw [List.length_append, List.length_take, Nat.min_eq_left hpos]
  rw [overwrite_of_le hpos, ← hlen, ← List.drop_drop, List.drop_left, List.drop_drop]

/-- A record is written in its place, and at most 999 bytes of an old line are erased. -/
theorem writes_recorded {text : List UInt8} {position : ℕ} (h : position ≤ text.length)
    (call : LogCall) : Writes layout text position call (recorded text position call.record) := by
  have herased := length_erased text position
  have hgap : (spaces (strlen (readLine 999 (text.drop position)))).length ≤ 999 := by
    rw [length_spaces, strlen]
    exact (List.takeWhile_prefix _).length_le.trans (length_readLine_le _ _)
  rw [List.length_drop] at herased
  have hlen := length_overwrite h (spaces (strlen (readLine 999 (text.drop position))))
  have htake : (overwrite text position
      (spaces (strlen (readLine 999 (text.drop position))))).take position =
        text.take position := by
    rw [overwrite_of_le h, List.append_assoc, List.take_append_of_le_length, List.take_take,
      Nat.min_self]
    rw [List.length_take, Nat.min_eq_left h]
  refine ⟨(overwrite text position (spaces (strlen (readLine 999 (text.drop position))))).drop
    (position + call.record.length), ?_, ?_⟩
  · rw [recorded, overwrite_of_le (by omega), htake]
    rfl
  · rw [List.drop_drop]
    exact drop_overwrite h (by show _ ≤ position + call.record.length + 999; omega)

/-- The log file holds the records of the ring, and its header the cursor. -/
def Refines (file : Option (List UInt8)) (ring : Laps LogCall) : Prop :=
  ∃ bytes, file = some bytes ∧ CursorOk bytes ring.cursor ∧ ring.Represents layout (bytes.drop 26)

theorem refines_first {s : LogState} {call : LogCall}
    (henabled : call.level.toNat ≤ s.logRunLevel) (hnone : s.file = none) :
    Refines (logPrintfInfo s call).file (Laps.empty.push layout call) := by
  have hlen := call.length_record
  have hlimit : call.record.length < maxLogSize := by
    rw [maxLogSize]
    omega
  obtain ⟨-, file, hfile, hok⟩ := logPrintfInfo_none_cursorOk henabled hnone
  have hcursor : (Laps.empty.push layout call).cursor = call.record.length := by
    rw [Laps.push, if_neg]
    · exact Nat.zero_add _
    · show ¬ maxLogSize ≤ 0 + call.record.length
      omega
  have hdrop : file.drop 26 = call.record.drop 26 := by
    rw [(logPrintfInfo_none henabled hnone).2] at hfile
    rw [← Option.some.inj hfile]
    apply drop_overwrite (Nat.zero_le _)
    have hheader := length_headerLine_le (n := call.record.length) (by omega)
    omega
  refine ⟨file, hfile, by rwa [hcursor], ?_⟩
  rw [hdrop]
  exact represents_singleton layout hlimit

theorem Refines.call {s : LogState} {call : LogCall} {ring : Laps LogCall}
    (h : Refines s.file ring) (henabled : call.level.toNat ≤ s.logRunLevel) :
    Refines (logPrintfInfo s call).file (ring.push layout call) := by
  obtain ⟨file, hfile, hok, hrep⟩ := h
  have hoffset : ring.offset layout call =
      if maxLogSize ≤ ring.cursor + call.record.length then 26 else ring.cursor := rfl
  obtain ⟨hfile', hok', hle⟩ := hok.file_eq henabled hfile hoffset
  have hcursor : (ring.push layout call).cursor =
      ring.offset layout call + call.record.length := by
    unfold Laps.push Laps.offset
    split <;> rfl
  refine ⟨_, hfile', by rwa [hcursor], hrep.push ?_⟩
  -- the file behind its first 26 bytes is written as a file of its own
  have hge : 26 ≤ ring.offset layout call := by
    have hge := hok.ge
    rw [hoffset]
    split <;> omega
  have hfront : (file.take 26).length = 26 := by
    rw [List.length_take]
    have hle' := hok.le
    have hge' := hok.ge
    omega
  have hposition : (file.take 26).length + (ring.offset layout call - 26) =
      ring.offset layout call := by omega
  have hrecorded : recorded file (ring.offset layout call) call.record =
      file.take 26 ++ recorded (file.drop 26) (ring.offset layout call - 26) call.record := by
    have happend := recorded_append (file.take 26) (file.drop 26)
      (ring.offset layout call - 26) call.record
    rwa [List.take_append_drop, hposition] at happend
  have hheader : (headerLine (ring.offset layout call + call.record.length)).length ≤ 26 := by
    apply length_headerLine_le
    have hle' := hok'.le
    have hlt' := hok'.lt
    rw [maxLogSize] at hlt'
    omega
  have hdrop : (written file (ring.offset layout call) call.record).drop 26 =
      recorded (file.drop 26) (ring.offset layout call - 26) call.record := by
    rw [written_eq, drop_overwrite (Nat.zero_le _) (by omega), hrecorded, List.drop_left' hfront]
  rw [hdrop]
  show Writes layout (file.drop 26) (ring.offset layout call - 26) call _
  apply writes_recorded
  rw [List.length_drop]
  omega

/-- **The log refines the ring**: after any calls of a single life. -/
theorem run_refines {calls : List LogCall} (hne : calls ≠ []) :
    Refines (run (noLog 3) calls).file (ringOf calls) := by
  induction calls using List.reverseRecOn with
  | nil => exact absurd rfl hne
  | append_singleton calls call ih =>
      have hlevel : call.level.toNat ≤ (run (noLog 3) calls).logRunLevel := by
        rw [run_logRunLevel]
        exact call.level.toNat_le
      rw [run_concat, ringOf_concat]
      by_cases hnil : calls = []
      · subst hnil
        exact refines_first hlevel rfl
      · exact (ih hnil).call hlevel

/-- **The log over any lives of the program** starts with the header of the ring's cursor, stays
below the limit, and holds behind byte 26 the newest lap of the ring, whole and up to the cursor,
and of the last lap all that lies 999 bytes behind it. -/
theorem log_refines_ring (events : List Event) (hne : logged 0 events ≠ []) :
    (ringOf (logged 0 events)).written = logged 0 events ∧
      ∃ file, (runEvents (noLog 0) events).file = some file ∧
        headerLine (ringOf (logged 0 events)).cursor <+: file ∧
        (ringOf (logged 0 events)).cursor ≤ file.length ∧ file.length < maxLogSize ∧
        (ringOf (logged 0 events)).Represents layout (file.drop 26) := by
  obtain ⟨file, hfile, hok, hrep⟩ := run_refines hne
  obtain ⟨residue, b, rest, hshape, -⟩ := hok.shape
  refine ⟨ringOf_written _, file, ?_, ?_, hok.le, hok.lt, hrep⟩
  · rw [runEvents_file (noLog 0) (noLog 3) (.inl rfl) rfl rfl events]
    exact hfile
  · rw [hshape, List.append_assoc]
    exact List.prefix_append _ _

/-- **What was logged last is in the log.**  However often the program was started and its level
set: a record that was let through stands in the file, whole, until 102802 bytes are written from
it on; only the first record of all, which the header covers, is excepted. -/
theorem log_keeps_recent (events : List Event) {older newer : List LogCall} {call : LogCall}
    (hlogged : logged 0 events = older ++ call :: newer) (holder : older ≠ [])
    (hrecent : call.record.length + (records newer).length ≤ 102802) :
    ∃ file, (runEvents (noLog 0) events).file = some file ∧ call.record <:+: file := by
  have hne : logged 0 events ≠ [] := by
    rw [hlogged]
    exact List.append_ne_nil_of_right_ne_nil _ (List.cons_ne_nil _ _)
  obtain ⟨file, hfile, -, hrep⟩ := run_refines hne
  refine ⟨file, ?_, ?_⟩
  · rw [runEvents_file (noLog 0) (noLog 3) (.inl rfl) rfl rfl events]
    exact hfile
  · have hinfix : call.record <:+: file.drop 26 := by
      apply hrep.recent (by rw [ringOf_written, hlogged]) holder
      show call.record.length + (records newer).length + 26 + 999 + 1030 ≤ maxLogSize
      rw [maxLogSize]
      omega
    exact hinfix.trans (List.drop_suffix 26 file).isInfix

/-- Two lives of the program. -/
def twoLives : List Event :=
  [.setLevel 3, .call (noonCall .debug "a" (by decide)), .start, .setLevel 7,
    .call (noonCall .debug "b" (by decide)), .call (noonCall .error "c" (by decide))]

/-- The second message is not let through. -/
theorem logged_twoLives : logged 0 twoLives =
    [noonCall .debug "a" (by decide)] ++ [noonCall .error "c" (by decide)] := rfl

theorem log_refines_ring_two_lives :
    ∃ file, (runEvents (noLog 0) twoLives).file = some file ∧
      headerLine (ringOf (logged 0 twoLives)).cursor <+: file ∧
      (ringOf (logged 0 twoLives)).Represents layout (file.drop 26) := by
  obtain ⟨-, file, hfile, hheader, -, -, hrep⟩ := log_refines_ring twoLives (List.cons_ne_nil _ _)
  exact ⟨file, hfile, hheader, hrep⟩

theorem log_keeps_recent_two_lives :
    ∃ file, (runEvents (noLog 0) twoLives).file = some file ∧
      (noonCall .error "c" (by decide)).record <:+: file := by
  apply log_keeps_recent twoLives logged_twoLives (List.cons_ne_nil _ _)
  decide

end CircularLog
