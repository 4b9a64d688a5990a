/-
# Capturing the output of a command

`run_command_and_save` opens a pipe from a command, copies its output to a file byte by
byte and reaps the child; `main` parses the captured file and replaces the saved list.
Every call can fail, at any byte of the copy.  The function runs `PATH_CMD` whatever
command it is given, and the wait status of the child goes to the log only; the last
section says when its verdict is right all the same.
-/
import Mathlib.Logic.Function.Basic
import RouterTools.IfaceSave

namespace Iface

open CString

/-! ## Commands and failures -/

/-- `PATH_CMD`. -/
def pathCmd : CString := str "ifconfig -a"

/-- `PATH_DATA_FILE`. -/
def pathDataFile : CString := str "/home/test/interface_manager/database/data.txt"

/-- `PATH_MY_IFACE_LIST`. -/
def pathMyIfaceList : CString := str "/home/test/interface_manager/database/my_iface_list.txt"

/-- How a child ends: what `WIFEXITED` and `WEXITSTATUS` tell of its wait status. -/
inductive WaitStatus where
  | exited (code : UInt8)
  | terminated (signal : ℕ)
  deriving DecidableEq, Repr

/-- What a command writes to its standard output, and how it ends. -/
structure Process where
  output : CString
  status : WaitStatus

/-- The commands and the outcomes of the calls of one capture. -/
structure System where
  /-- What each command does when the shell runs it. -/
  process : CString → Process
  popen : Bool
  fopen : Bool
  /-- The number of bytes after which reading from the pipe fails. -/
  readError : Option ℕ
  /-- Whether `fputc` of the byte with the given index succeeds. -/
  fputc : ℕ → Bool
  /-- The number of bytes that reach the file where a write to it or the close fails. -/
  flushed : ℕ
  fclose : Bool
  /-- Whether `pclose` gives a wait status. -/
  pclose : Bool

/-- The contents of the files. -/
abbrev Files := CString → Option CString

/-! ## `run_command_and_save` -/

/-- How the copy loop ends. -/
inductive CopyEnd where
  | endOfOutput
  | readFailed
  | writeFailed
  deriving DecidableEq, Repr

/-- The copy loop: `fgetc` from the pipe, `fputc` to the file. -/
def copyLoop (sys : System) : CString → CString → CopyEnd × CString
  | [], written =>
      (if sys.readError = some written.length then .readFailed else .endOfOutput, written)
  | character :: rest, written =>
      if sys.readError = some written.length then (.readFailed, written)
      else if sys.fputc written.length then copyLoop sys rest (written ++ [character])
      else (.writeFailed, written)

/-- What a capture returns and does. -/
structure Capture where
  returned : Bool
  /-- The command that the shell was given. -/
  ran : Option CString
  files : Files

/-- `run_command_and_save`. -/
def runCommandAndSave (sys : System) (_command outputFilename : CString) (files : Files) :
    Capture :=
  if sys.popen then
    let child := sys.process pathCmd
    if sys.fopen then
      let (ending, written) := copyLoop sys child.output []
      let closed := Function.update files outputFilename (some written)
      let cutOff := Function.update files outputFilename (some (written.take sys.flushed))
      match ending with
      | .writeFailed => ⟨false, some pathCmd, cutOff⟩
      | .readFailed => ⟨false, some pathCmd, if sys.fclose then closed else cutOff⟩
      | .endOfOutput =>
          if sys.fclose then
            if sys.pclose then
              -- `child.status` chooses between three log messages, and no more
              ⟨true, some pathCmd, closed⟩
            else ⟨false, some pathCmd, closed⟩
          else ⟨false, some pathCmd, cutOff⟩
    else ⟨false, some pathCmd, files⟩
  else ⟨false, none, files⟩

/-! ## `load_data_from_file` and `main` -/

/-- The outcomes of the calls of `load_data_from_file`. -/
structure LoadOutcomes where
  fopen : Bool
  fseek : Bool
  ftell : Bool
  malloc : Bool
  fread : Bool

/-- `load_data_from_file`: the bytes of the file up to its first NUL, which is what its
callers see of the buffer. -/
def loadDataFromFile (io : LoadOutcomes) (file : Option CString) : Option CString :=
  match file with
  | none => none
  | some bytes =>
      if io.fopen then
        if io.fseek then
          if io.ftell then
            if io.malloc then
              if io.fread then some (bytes.takeWhile (· ≠ 0)) else none
            else none
          else none
        else none
      else none

/-- What a run of the program leaves behind. -/
structure MainRun where
  exitCode : ℕ
  /-- Whether the saved list was opened for writing. -/
  replaced : Bool
  files : Files

/-- `main`, less its `LOG` calls, its search for two interfaces and what it prints; `heap` and
`saveOpens` are the outcomes for `parse_data_buffer` and `save_list_to_file`. -/
def main (sys : System) (io : LoadOutcomes) (heap : Alloc) (saveOpens : Bool) (files : Files) :
    MainRun :=
  let capture := runCommandAndSave sys pathCmd pathDataFile files
  if capture.returned then
    match loadDataFromFile io (capture.files pathDataFile) with
    | none => ⟨1, false, capture.files⟩
    | some fileBuffer =>
        let head := (parseDataBuffer [] (some fileBuffer) heap).1
        let file := saveListToFile head saveOpens (capture.files pathMyIfaceList)
        ⟨0, saveOpens, Function.update capture.files pathMyIfaceList file⟩
  else ⟨1, false, capture.files⟩

/-! ## The copy loop -/

/-- A copy that gets to the end has written everything. -/
theorem copyLoop_written (sys : System) (rest : CString) : ∀ written : CString,
    (copyLoop sys rest written).1 = .endOfOutput →
    (copyLoop sys rest written).2 = written ++ rest := by
  induction rest with
  | nil =>
      intro written _
      exact (List.append_nil written).symm
  | cons character rest ih =>
      intro written h
      rw [copyLoop] at h ⊢
      split_ifs at h ⊢
      rw [ih _ h, List.append_assoc, List.singleton_append]

/-- It gets there exactly when no read and no write on the way fails. -/
theorem copyLoop_endOfOutput_iff (sys : System) (rest : CString) : ∀ written : CString,
    (copyLoop sys rest written).1 = .endOfOutput ↔
      (∀ n, written.length ≤ n → n ≤ written.length + rest.length → sys.readError ≠ some n) ∧
        ∀ n, written.length ≤ n → n < written.length + rest.length → sys.fputc n = true := by
  induction rest with
  | nil =>
      intro written
      rw [copyLoop, List.length_nil, Nat.add_zero]
      constructor
      · intro h
        refine ⟨?_, fun n hle hlt => absurd hlt (by omega)⟩
        intro n hle hge
        obtain rfl : n = written.length := by omega
        intro herror
        rw [if_pos herror] at h
        cases h
      · rintro ⟨hread, -⟩
        rw [if_neg (hread _ le_rfl le_rfl)]
  | cons character rest ih =>
      intro written
      have hlen : (written ++ [character]).length = written.length + 1 := by simp
      have hstep := ih (written ++ [character])
      rw [hlen] at hstep
      rw [copyLoop, List.length_cons]
      constructor
      · intro h
        split_ifs at h with herror hput
        obtain ⟨hread, hwrite⟩ := hstep.mp h
        constructor
        · -- the call at this byte, or one further on
          intro n hle hge
          by_cases hn : n = written.length
          · rw [hn]
            exact herror
          · exact hread n (by omega) (by omega)
        · intro n hle hlt
          by_cases hn : n = written.length
          · rw [hn]
            exact hput
          · exact hwrite n (by omega) (by omega)
      · rintro ⟨hread, hwrite⟩
        rw [if_neg (hread _ le_rfl (by omega)), if_pos (hwrite _ le_rfl (by omega))]
        apply hstep.mpr
        exact ⟨fun n hle hge => hread n (by omega) (by omega),
          fun n hle hlt => hwrite n (by omega) (by omega)⟩

/-! ## The verdict -/

/-- Every call of a capture succeeds, at every byte of the output. -/
structure System.Succeeds (sys : System) : Prop where
  popen : sys.popen = true
  fopen : sys.fopen = true
  reads : ∀ n ≤ (sys.process pathCmd).output.length, sys.readError ≠ some n
  writes : ∀ n < (sys.process pathCmd).output.length, sys.fputc n = true
  fclose : sys.fclose = true
  pclose : sys.pclose = true

/-- Every call of `load_data_from_file` succeeds. -/
structure LoadOutcomes.Succeeds (io : LoadOutcomes) : Prop where
  fopen : io.fopen = true
  fseek : io.fseek = true
  ftell : io.ftell = true
  malloc : io.malloc = true
  fread : io.fread = true

/-- **What a capture can do**: it meets no failure and returns true, with the output of
`PATH_CMD` in the file, or something fails and it returns false; other files are
untouched. -/
theorem runCommandAndSave_cases (sys : System) (command outputFilename : CString)
    (files : Files) :
    (sys.Succeeds ∧ runCommandAndSave sys command outputFilename files =
      ⟨true, some pathCmd,
        Function.update files outputFilename (some (sys.process pathCmd).output)⟩) ∨
    (¬ sys.Succeeds ∧ ∃ ran files',
      runCommandAndSave sys command outputFilename files = ⟨false, ran, files'⟩ ∧
      ∀ path, path ≠ outputFilename → files' path = files path) := by
  have hother : ∀ text path, path ≠ outputFilename →
      Function.update files outputFilename (some text) path = files path :=
    fun text path hne => Function.update_of_ne hne _ _
  unfold runCommandAndSave
  by_cases hpopen : sys.popen = true
  swap
  · exact .inr ⟨fun h => hpopen h.popen, none, files, by rw [if_neg hpopen], fun _ _ => rfl⟩
  rw [if_pos hpopen]
  dsimp only
  by_cases hfopen : sys.fopen = true
  swap
  · exact .inr ⟨fun h => hfopen h.fopen, _, files, by rw [if_neg hfopen], fun _ _ => rfl⟩
  rw [if_pos hfopen]
  -- from here on the file is open, and how the copy ends decides
  have hcopy := copyLoop_endOfOutput_iff sys (sys.process pathCmd).output []
  rw [List.length_nil, Nat.zero_add] at hcopy
  have hend : sys.Succeeds → (copyLoop sys (sys.process pathCmd).output []).1 = .endOfOutput :=
    fun h => hcopy.mpr ⟨fun n _ hle => h.reads n hle, fun n _ hlt => h.writes n hlt⟩
  cases hending : (copyLoop sys (sys.process pathCmd).output []).1 with
  | writeFailed =>
      rw [hending] at hend
      exact .inr ⟨fun h => CopyEnd.noConfusion (hend h), _, _, rfl, hother _⟩
  | readFailed =>
      rw [hending] at hend
      refine .inr ⟨fun h => CopyEnd.noConfusion (hend h), _, _, rfl, ?_⟩
      split_ifs
      · exact hother _
      · exact hother _
  | endOfOutput =>
      obtain ⟨hreads, hwrites⟩ := hcopy.mp hending
      dsimp only
      rw [copyLoop_written sys _ _ hending, List.nil_append]
      split_ifs with hfclose hpclose
      · exact .inl ⟨⟨hpopen, hfopen, fun n hle => hreads n (Nat.zero_le n) hle,
          fun n hlt => hwrites n (Nat.zero_le n) hlt, hfclose, hpclose⟩, rfl⟩
      · exact .inr ⟨fun h => hpclose h.pclose, _, _, rfl, hother _⟩
      · exact .inr ⟨fun h => hfclose h.fclose, _, _, rfl, hother _⟩

/-- A capture without a failure. -/
theorem runCommandAndSave_of_succeeds {sys : System} (h : sys.Succeeds)
    (command outputFilename : CString) (files : Files) :
    runCommandAndSave sys command outputFilename files =
      ⟨true, some pathCmd,
        Function.update files outputFilename (some (sys.process pathCmd).output)⟩ := by
  rcases runCommandAndSave_cases sys command outputFilename files with ⟨-, hrun⟩ | ⟨hno, -⟩
  · exact hrun
  · exact absurd h hno

/-- The function returns true exactly when nothing has failed. -/
theorem returned_iff {sys : System} (command outputFilename : CString) (files : Files) :
    (runCommandAndSave sys command outputFilename files).returned = true ↔ sys.Succeeds := by
  rcases runCommandAndSave_cases sys command outputFilename files with
    ⟨h, hrun⟩ | ⟨hno, ran, files', hrun, -⟩
  · rw [hrun]
    exact iff_of_true rfl h
  · rw [hrun]
    exact iff_of_false Bool.false_ne_true hno

/-- Other files are untouched, whatever fails. -/
theorem runCommandAndSave_files_of_ne (sys : System) (command : CString)
    {outputFilename path : CString} (hne : path ≠ outputFilename) (files : Files) :
    (runCommandAndSave sys command outputFilename files).files path = files path := by
  rcases runCommandAndSave_cases sys command outputFilename files with
    ⟨-, hrun⟩ | ⟨-, ran, files', hrun, hother⟩
  · rw [hrun]
    exact Function.update_of_ne hne _ _
  · rw [hrun]
    exact hother path hne

/-- Loading succeeds exactly when every call does. -/
theorem loadDataFromFile_some_iff {io : LoadOutcomes} {bytes buffer : CString} :
    loadDataFromFile io (some bytes) = some buffer ↔
      io.Succeeds ∧ bytes.takeWhile (· ≠ 0) = buffer := by
  unfold loadDataFromFile
  dsimp only
  constructor
  · intro h
    split_ifs at h with h₁ h₂ h₃ h₄ h₅
    exact ⟨⟨h₁, h₂, h₃, h₄, h₅⟩, Option.some.inj h⟩
  · rintro ⟨h, rfl⟩
    rw [if_pos h.fopen, if_pos h.fseek, if_pos h.ftell, if_pos h.malloc, if_pos h.fread]

/-- `main` opens the saved list for writing exactly when the capture, the load and the
`fopen` succeed. -/
theorem replaced_iff (sys : System) (io : LoadOutcomes) (heap : Alloc) (saveOpens : Bool)
    (files : Files) :
    (main sys io heap saveOpens files).replaced = true ↔
      sys.Succeeds ∧ io.Succeeds ∧ saveOpens = true := by
  unfold main
  dsimp only
  by_cases h : sys.Succeeds
  · rw [runCommandAndSave_of_succeeds h, if_pos rfl]
    dsimp only
    rw [Function.update_self]
    cases hload : loadDataFromFile io (some (sys.process pathCmd).output) with
    | none =>
        have hio : ¬ io.Succeeds := by
          intro hio
          -- with every call succeeding the load would have a result
          have hsome : loadDataFromFile io (some (sys.process pathCmd).output) = some _ :=
            loadDataFromFile_some_iff.mpr ⟨hio, rfl⟩
          rw [hload] at hsome
          cases hsome
        simp [hio]
    | some buffer =>
        obtain ⟨hio, -⟩ := loadDataFromFile_some_iff.mp hload
        simp [h, hio]
  · rw [if_neg (mt (returned_iff _ _ _).mp h)]
    simp [h]

/-- A list that is not opened for writing keeps its contents. -/
theorem main_files_of_not_replaced {sys : System} {io : LoadOutcomes} {heap : Alloc}
    {saveOpens : Bool} {files : Files}
    (h : (main sys io heap saveOpens files).replaced = false) :
    (main sys io heap saveOpens files).files pathMyIfaceList = files pathMyIfaceList := by
  have hne : pathMyIfaceList ≠ pathDataFile := by decide
  have hkeep := runCommandAndSave_files_of_ne sys pathCmd hne files
  unfold main at h ⊢
  dsimp only at h ⊢
  split_ifs at h ⊢
  · cases hload : loadDataFromFile io
        ((runCommandAndSave sys pathCmd pathDataFile files).files pathDataFile) with
    | none => exact hkeep
    | some buffer =>
        rw [hload] at h
        dsimp only at h ⊢
        rw [Function.update_self, h, saveListToFile, if_neg Bool.false_ne_true, hkeep]
  · exact hkeep

/-! ## When the verdict is right -/

/-- A capture that is reported as a success is one: the given command was run, it exited
with status 0, and the file holds its output. -/
def FaithfulCapture (sys : System) (command outputFilename : CString) (files : Files) : Prop :=
  (runCommandAndSave sys command outputFilename files).returned = true →
    (runCommandAndSave sys command outputFilename files).ran = some command ∧
    (sys.process command).status = .exited 0 ∧
    (runCommandAndSave sys command outputFilename files).files outputFilename =
      some (sys.process command).output

/-- After a command that failed, `main` leaves the saved list alone. -/
def KeepsSavedList (sys : System) (io : LoadOutcomes) (heap : Alloc) (saveOpens : Bool)
    (files : Files) : Prop :=
  (sys.process pathCmd).status ≠ .exited 0 →
    (main sys io heap saveOpens files).replaced = false ∧
    (main sys io heap saveOpens files).files pathMyIfaceList = files pathMyIfaceList

/-- **When success is reported rightly**: a capture that meets no failure must have been
asked for `PATH_CMD`, and that must have exited with status 0; and `main` replaces the
list after a command that failed unless a call fails before. -/
theorem run_command_and_save_iff (sys : System) (command outputFilename : CString) (files : Files)
    (io : LoadOutcomes) (heap : Alloc) (saveOpens : Bool) :
    (FaithfulCapture sys command outputFilename files ↔
      (sys.Succeeds → command = pathCmd ∧ (sys.process pathCmd).status = .exited 0)) ∧
    (KeepsSavedList sys io heap saveOpens files ↔
      (sys.Succeeds → io.Succeeds → saveOpens = true →
        (sys.process pathCmd).status = .exited 0)) := by
  constructor
  · rw [FaithfulCapture, returned_iff]
    apply forall_congr'
    intro h
    rw [runCommandAndSave_of_succeeds h]
    dsimp only
    rw [Function.update_self, Option.some.injEq]
    constructor
    · rintro ⟨rfl, hstatus, -⟩
      exact ⟨rfl, hstatus⟩
    · rintro ⟨rfl, hstatus⟩
      exact ⟨rfl, hstatus, rfl⟩
  · have hreplaced := replaced_iff sys io heap saveOpens files
    constructor
    · intro hkeeps hsys hio hsave
      by_contra hstatus
      have hfalse := (hkeeps hstatus).1
      rw [hreplaced.mpr ⟨hsys, hio, hsave⟩] at hfalse
      cases hfalse
    · intro hcond hstatus
      have hnot : (main sys io heap saveOpens files).replaced = false := by
        rw [← Bool.not_eq_true, hreplaced]
        rintro ⟨hsys, hio, hsave⟩
        exact hstatus (hcond hsys hio hsave)
      exact ⟨hnot, main_files_of_not_replaced hnot⟩

/-- A system without `ifconfig`: the shell exits with status 127. -/
def noIfconfig : System where
  process _ := ⟨[], .exited 127⟩
  popen := true
  fopen := true
  readError := none
  fputc _ := true
  flushed := 0
  fclose := true
  pclose := true

/-- The saved list of an earlier run, and no other file. -/
def savedBefore : Files :=
  Function.update (fun _ => none) pathMyIfaceList (some (str "Name: lo\n"))

/-- Without `ifconfig` the capture is a success, and the saved list is emptied. -/
theorem run_command_and_save_without_ifconfig :
    ¬ FaithfulCapture noIfconfig pathCmd pathDataFile savedBefore ∧
      ¬ KeepsSavedList noIfconfig ⟨true, true, true, true, true⟩ [] true savedBefore := by
  have hsys : noIfconfig.Succeeds :=
    ⟨rfl, rfl, fun n _ => (Option.some_ne_none n).symm, fun n _ => rfl, rfl, rfl⟩
  have hstatus : (noIfconfig.process pathCmd).status ≠ .exited 0 := by decide
  constructor
  · intro h
    exact hstatus (h ((returned_iff _ _ _).mpr hsys)).2.1
  · intro h
    have hfalse := (h hstatus).1
    rw [(replaced_iff noIfconfig _ [] true savedBefore).mpr ⟨hsys, ⟨rfl, rfl, rfl, rfl, rfl⟩, rfl⟩] at hfalse
    cases hfalse

end Iface
