/-
# The log before it wraps

As long as the wrap test is never true, each record goes to the end of the file.  But the
first record starts at offset 0, where the header goes too: the call that creates the
file sets the cursor to the header size of 0 that it had before it wrote the header.  So
the file is the header over the front of the records (`run_file_eq`), and what the header
covers of the first record is lost: the file is the header followed by all records
after no call at all (`append_phase_iff`).
-/
import RouterTools.LogBounds

namespace CircularLog

open CString Stdio

/-! ## Runs that do not wrap -/

/-- The wrap test of a call. -/
def wrapTest (s : LogState) (call : LogCall) : Bool :=
  let (currentPosition, headerSize) := readPosition s
  let (_, currentPosition) := openLog s.file currentPosition headerSize
  wraps currentPosition call.record

/-- The wrap test is true for no call of the sequence. -/
def NeverWraps (s : LogState) (calls : List LogCall) : Prop :=
  ∀ before call after, calls = before ++ call :: after → wrapTest (run s before) call = false

/-- The records of a sequence of calls, in call order. -/
def records (calls : List LogCall) : List UInt8 := (calls.map LogCall.record).flatten

theorem records_concat (calls : List LogCall) (call : LogCall) :
    records (calls ++ [call]) = records calls ++ call.record := by
  simp [records]

theorem CursorOk.wrapTest_eq {s : LogState} {file : List UInt8} {n : ℕ} (h : CursorOk file n)
    (hfile : s.file = some file) (call : LogCall) :
    wrapTest s call = true ↔ maxLogSize ≤ n + call.record.length := by
  obtain ⟨headerSize, -, hread, -⟩ := h.readHeader
  rw [wrapTest, readPosition_some hfile h.lt (hread s.currentPosition), hfile]
  exact wraps_natCast n call.record

/-! ## What the file holds -/

/-- A record written at the end of the file, and the new header over the old. -/
theorem written_at_end {n : ℕ} {cat : List UInt8} (hn : cat.length = n) (hge : 30 ≤ n)
    (hlt : n < 1000000) (record : CString) (hlt' : n + record.length < 1000000) :
    written (headerLine n ++ cat.drop (headerLine n).length) n record =
      headerLine (n + record.length) ++
        (cat ++ record).drop (headerLine (n + record.length)).length := by
  have hle := length_headerLine_le hlt
  have hle' := length_headerLine_le hlt'
  have hmono := length_headerLine_mono (m := n) (n := n + record.length) (by omega)
  have hlen : (headerLine n ++ cat.drop (headerLine n).length).length = n := by
    rw [List.length_append, List.length_drop]
    omega
  generalize hfile : headerLine n ++ cat.drop (headerLine n).length = file at hlen
  -- nothing is erased at the end of the file
  have hrecorded : recorded file n record = file ++ record := by
    have hnone : overwrite file n (spaces (strlen (readLine 999 (file.drop n)))) = file := by
      rw [List.drop_eq_nil_of_le (by omega)]
      show overwrite file n [] = file
      rw [← hlen, overwrite_length_eq, List.append_nil]
    rw [recorded, hnone, ← hlen, overwrite_length_eq]
  obtain ⟨j, hj⟩ := Nat.exists_eq_add_of_le hmono
  have hcat : (cat ++ record).drop (headerLine n).length =
      cat.drop (headerLine n).length ++ record := List.drop_append_of_le_length (by omega)
  rw [written_eq, hrecorded, overwrite_zero, ← hfile, hj, ← List.drop_drop, ← List.drop_drop,
    List.append_assoc, List.drop_left, hcat]

/-- **The file after calls that do not wrap** is the header over the front of all
records, and the cursor is at its end. -/
theorem run_file_eq {logRunLevel : ℕ} {calls : List LogCall}
    (henabled : ∀ call ∈ calls, call.level.toNat ≤ logRunLevel)
    (hwraps : NeverWraps (noLog logRunLevel) calls) (hne : calls ≠ []) :
    ∃ file, (run (noLog logRunLevel) calls).file = some file ∧
      CursorOk file (records calls).length ∧
      file = headerLine (records calls).length ++
        (records calls).drop (headerLine (records calls).length).length := by
  induction calls using List.reverseRecOn with
  | nil => exact absurd rfl hne
  | append_singleton calls call ih =>
      have hlevel : call.level.toNat ≤ (run (noLog logRunLevel) calls).logRunLevel := by
        rw [run_logRunLevel]
        exact henabled call (by simp)
      rw [run_concat, records_concat]
      by_cases hnil : calls = []
      · subst hnil
        obtain ⟨-, hcall⟩ := logPrintfInfo_none hlevel rfl
        obtain ⟨-, file, hfile, hok⟩ := logPrintfInfo_none_cursorOk hlevel rfl
        refine ⟨file, hfile, hok, ?_⟩
        rw [hcall, overwrite_zero] at hfile
        exact (Option.some.inj hfile).symm
      · obtain ⟨file, hfile, hok, heq⟩ := ih (fun c hc => henabled c (by simp [hc]))
          (fun before c after hsplit => hwraps before c (after ++ [call]) (by rw [hsplit]; simp)) hnil
        -- no wrap: the record goes where the last one ended
        have hfits : ¬ maxLogSize ≤ (records calls).length + call.record.length := by
          rw [← hok.wrapTest_eq hfile call, Bool.not_eq_true]
          exact hwraps calls call [] rfl
        obtain ⟨offset, -, -, hcases, hfile', hok'⟩ := hok.logPrintfInfo hlevel hfile
        obtain rfl := hcases.resolve_right hfits
        refine ⟨_, hfile', by rw [List.length_append]; exact hok', ?_⟩
        rw [maxLogSize] at hfits
        rw [List.length_append, heq, written_at_end rfl hok.ge (by omega) _ (by omega)]

/-! ## The append phase -/

/-- After each call of the sequence the file is the header of its end and all records. -/
def AppendsAll (s : LogState) (calls : List LogCall) : Prop :=
  ∀ before after, calls = before ++ after → before ≠ [] →
    ∃ n, (run s before).file = some (headerLine n ++ records before) ∧
      n = (headerLine n ++ records before).length

/-- The records are never all there: the file is too short by a header. -/
theorem not_appendsAll {logRunLevel : ℕ} {calls : List LogCall}
    (henabled : ∀ call ∈ calls, call.level.toNat ≤ logRunLevel)
    (hwraps : NeverWraps (noLog logRunLevel) calls) (hne : calls ≠ []) :
    ¬ AppendsAll (noLog logRunLevel) calls := by
  intro h
  obtain ⟨n, hall, -⟩ := h calls [] (List.append_nil calls).symm hne
  obtain ⟨file, hfile, hok, heq⟩ := run_file_eq henabled hwraps hne
  have hlen : (headerLine n ++ records calls).length = file.length :=
    congrArg List.length (Option.some.inj (hall.symm.trans hfile))
  have hheader := length_headerLine_ge n
  have hge := hok.ge
  have hlt := hok.le.trans_lt hok.lt
  rw [maxLogSize] at hlt
  have hle := length_headerLine_le (n := (records calls).length) (by omega)
  rw [heq, List.length_append, List.length_append, List.length_drop] at hlen
  omega

/-- **The append phase loses the front of the first record**, in every run.  For every
sequence of enabled calls from no log file for which the wrap test is never true: the
file is the header followed by all records after each of them exactly when there is no
call; and after each call it is the header written over the front of the records. -/
theorem append_phase_iff (logRunLevel : ℕ) (calls : List LogCall)
    (henabled : ∀ call ∈ calls, call.level.toNat ≤ logRunLevel)
    (hwraps : NeverWraps (noLog logRunLevel) calls) :
    (AppendsAll (noLog logRunLevel) calls ↔ calls = []) ∧
    ∀ before after, calls = before ++ after → before ≠ [] →
      (run (noLog logRunLevel) before).file =
        some (headerLine (records before).length ++
          (records before).drop (headerLine (records before).length).length) := by
  constructor
  · constructor
    · intro h
      by_contra hne
      exact not_appendsAll henabled hwraps hne h
    · rintro rfl before after hsplit hne
      exact absurd (List.append_eq_nil_iff.mp hsplit.symm).1 hne
  · rintro before after rfl hne
    obtain ⟨file, hfile, -, heq⟩ := run_file_eq
      (fun call (hcall : call ∈ before) => henabled call (by simp [hcall]))
      (fun before' call after' hsplit =>
        hwraps before' call (after' ++ after) (by rw [hsplit]; simp)) hne
    rw [hfile, heq]

/-- One call does not wrap, and already loses the front of its record. -/
theorem neverWraps_singleton (logRunLevel : ℕ) (call : LogCall) :
    NeverWraps (noLog logRunLevel) [call] := by
  intro before c after hsplit
  have hlen := c.length_record
  obtain rfl : before = [] := by
    cases before with
    | nil => rfl
    | cons b before => simp at hsplit
  have hfit : ¬ wraps ((0 : ℕ) : ℤ) c.record = true := by
    rw [wraps_natCast, maxLogSize]
    omega
  exact Bool.not_eq_true _ ▸ hfit

/-- The file after a first message `hello`. -/
theorem append_phase_iff_sample :
    (run (noLog 3) [noonCall .debug "hello" (by decide)]).file =
      some (str "current_position = 36\n[DEBUG] hello\n") := by
  rw [(append_phase_iff 3 [noonCall .debug "hello" (by decide)]
    (by intro call hcall; rw [List.mem_singleton.mp hcall]; decide)
    (neverWraps_singleton 3 _)).2 _ [] (List.append_nil _).symm (List.cons_ne_nil _ _)]
  decide

/-- **One call from no log file** loses the front of its record. -/
theorem first_record_torn : ¬ AppendsAll (noLog 3) [noonCall .debug "hello" (by decide)] :=
  not_appendsAll (by intro call hcall; rw [List.mem_singleton.mp hcall]; decide)
    (neverWraps_singleton 3 _) (List.cons_ne_nil _ _)

end CircularLog
