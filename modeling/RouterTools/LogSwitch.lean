/-
# Switching the log file

`set_log_file` of `log.c` copies the new path into `logger_config` before it tries to open
the file, and when that fails it says "Using previous log file" and leaves the new path
there: from then on `log_message` finds a file it cannot open and writes to `stderr`.
`failed_switch_keeps_log_iff` says along which runs the promise is kept.
-/
import Mathlib.Logic.Function.Basic
import RouterTools.LogMessage
import RouterTools.Runs

namespace Logger

open CString
open Runs (Along)

/-! ## The source -/

/-- `LoggerConfig`. -/
structure LoggerConfig where
  logFilePath : CString
  logLevel : UInt8
  deriving DecidableEq

/-- `logger_config`, the files by their paths, and what was written to `stderr`. -/
structure State where
  config : LoggerConfig
  files : CString → List UInt8
  stderr : List UInt8

/-- `"Cannot open new log file %s. Using previous log file.\n"`. -/
def cannotOpenNew (filePath : CString) : CString :=
  str "Cannot open new log file " ++ filePath ++ str ". Using previous log file.\n"

/-- `set_log_file`; `openable` says which paths `fopen(path, "a")` opens. -/
def setLogFile (openable : CString → Bool) (s : State) : Option CString → State
  | none => s
  | some filePath =>
      let config := { s.config with logFilePath := copyTo 256 filePath }
      if openable config.logFilePath = true then { s with config := config }
      else { s with config := config, stderr := s.stderr ++ cannotOpenNew filePath }

/-- `log_message`. -/
def logMessage (openable : CString → Bool) (s : State) (stack : Vector UInt8 2048)
    (m : Message) : State :=
  match logRecord stack s.config.logLevel m with
  | none => s
  | some logBuffer =>
      if openable s.config.logFilePath = true then
        { s with files := Function.update s.files s.config.logFilePath
                            (s.files s.config.logFilePath ++ logBuffer) }
      else { s with stderr := s.stderr ++ logBuffer }

/-- A call of the logger. -/
inductive Call where
  | setLogFile (filePath : Option CString)
  | logMessage (stack : Vector UInt8 2048) (m : Message)

/-- The state after a call. -/
def step (openable : CString → Bool) (s : State) : Call → State
  | .setLogFile filePath => setLogFile openable s filePath
  | .logMessage stack m => logMessage openable s stack m

/-! ## The promise -/

/-- The file of the most recent `set_log_file` whose open succeeded. -/
def lastOpened (openable : CString → Bool) (current : CString) : Call → CString
  | .setLogFile (some filePath) => if openable filePath = true then filePath else current
  | _ => current

/-- A call, watched together with the file that was opened last. -/
def watch (openable : CString → Bool) (watched : State × CString) (call : Call) :
    Option ((State × CString) × Unit) :=
  some ((step openable watched.1 call, lastOpened openable watched.2 call), ())

/-- A `set_log_file` that fails leaves the configuration, and an enabled message is appended
to the file opened last. -/
def KeepsLog (openable : CString → Bool) (watched : State × CString) : Call → Prop
  | .setLogFile filePath =>
      ∀ p, filePath = some p → openable p = false →
        (setLogFile openable watched.1 filePath).config = watched.1.config
  | .logMessage stack m =>
      m.Enabled watched.1.config.logLevel →
        ∃ logBuffer, logRecord stack watched.1.config.logLevel m = some logBuffer ∧
          logMessage openable watched.1 stack m =
            { watched.1 with files := Function.update watched.1.files watched.2
                                        (watched.1.files watched.2 ++ logBuffer) }

/-- A `set_log_file` names a file that can be opened, or the one opened last; and when an
enabled message comes, one that can be printed, the file opened last can still be opened. -/
def Writable (openable : CString → Bool) (watched : State × CString) : Call → Prop
  | .setLogFile filePath => ∀ p, filePath = some p → openable p = true ∨ p = watched.2
  | .logMessage _ m =>
      m.Enabled watched.1.config.logLevel →
        openable watched.2 = true ∧ m.content.length ≤ intMax

/-- The path, if there is one, fits into `log_file_path`. -/
def Call.PathFits : Call → Prop
  | .setLogFile filePath => ∀ p, filePath = some p → p.length ≤ 255
  | .logMessage _ _ => True

variable {openable : CString → Bool} {s : State} {current : CString}

/-- A path that fits is copied whole. -/
theorem config_setLogFile {p : CString} (hp : p.length ≤ 255) :
    (setLogFile openable s (some p)).config = { s.config with logFilePath := p } := by
  have hcopy : copyTo 256 p = p := copyTo_of_le hp
  simp only [setLogFile, hcopy]
  split_ifs <;> rfl

theorem config_logMessage (stack : Vector UInt8 2048) (m : Message) :
    (logMessage openable s stack m).config = s.config := by
  unfold logMessage
  split
  · rfl
  · split_ifs <;> rfl

/-- With a file that cannot be opened, a message reaches no file. -/
theorem files_logMessage (stack : Vector UInt8 2048) (m : Message)
    (hclosed : ¬ openable s.config.logFilePath = true) :
    (logMessage openable s stack m).files = s.files := by
  unfold logMessage
  split
  · rfl
  · rw [if_neg hclosed]

/-- A switch keeps the promise when the file opens, or when it is the file in use. -/
theorem keepsLog_setLogFile_iff {filePath : Option CString}
    (hfits : (Call.setLogFile filePath).PathFits) :
    KeepsLog openable (s, s.config.logFilePath) (.setLogFile filePath) ↔
      Writable openable (s, s.config.logFilePath) (.setLogFile filePath) := by
  apply forall₂_congr
  intro p hp
  subst hp
  rw [config_setLogFile (hfits p rfl)]
  -- the configuration stays the same only if the path does
  have hsame : ({ s.config with logFilePath := p } : LoggerConfig) = s.config ↔
      p = s.config.logFilePath := by
    constructor
    · intro h
      exact congrArg LoggerConfig.logFilePath h
    · rintro rfl
      rfl
  rw [hsame]
  cases openable p with
  | true => exact iff_of_true (fun h => nomatch h) (Or.inl rfl)
  | false =>
      constructor
      · intro h
        exact Or.inr (h rfl)
      · rintro (h | h) -
        · cases h
        · exact h

/-- A message is kept when it has a record and its file opens. -/
theorem keepsLog_logMessage_iff (stack : Vector UInt8 2048) (m : Message) :
    KeepsLog openable (s, s.config.logFilePath) (.logMessage stack m) ↔
      Writable openable (s, s.config.logFilePath) (.logMessage stack m) := by
  apply forall_congr'
  intro henabled
  rcases logRecord_enabled stack henabled with
    ⟨hcontent, logBuffer, hrecord, hne⟩ | ⟨hcontent, hrecord⟩
  · by_cases hopen : openable s.config.logFilePath = true
    · refine iff_of_true ⟨logBuffer, hrecord, ?_⟩ ⟨hopen, hcontent⟩
      dsimp only
      rw [logMessage, hrecord]
      exact if_pos hopen
    · -- the record is not empty, so that a file without it has lost it
      refine iff_of_false ?_ fun h => hopen h.1
      rintro ⟨logBuffer', hsome, hstate⟩
      obtain rfl := Option.some.inj (hrecord.symm.trans hsome)
      have hfile := congrFun (congrArg State.files hstate) s.config.logFilePath
      dsimp only at hfile
      rw [files_logMessage stack m hopen, Function.update_self,
        List.self_eq_append_right] at hfile
      exact hne hfile
  · refine iff_of_false ?_ fun h => hcontent h.2
    rintro ⟨logBuffer, hsome, -⟩
    dsimp only at hsome hrecord
    rw [hrecord] at hsome
    cases hsome

/-- **One call**: while the configuration names the file opened last, the promise is kept
exactly under the condition. -/
theorem keepsLog_iff (hcurrent : s.config.logFilePath = current) {call : Call}
    (hfits : call.PathFits) :
    KeepsLog openable (s, current) call ↔ Writable openable (s, current) call := by
  subst hcurrent
  cases call with
  | setLogFile filePath => exact keepsLog_setLogFile_iff hfits
  | logMessage stack m => exact keepsLog_logMessage_iff stack m

/-- Under the condition the configuration goes on naming the file opened last. -/
theorem logFilePath_step (hcurrent : s.config.logFilePath = current) {call : Call}
    (hfits : call.PathFits) (hwritable : Writable openable (s, current) call) :
    (step openable s call).config.logFilePath = lastOpened openable current call := by
  cases call with
  | setLogFile filePath =>
      cases filePath with
      | none => exact hcurrent
      | some p =>
          show (setLogFile openable s (some p)).config.logFilePath = _
          rw [config_setLogFile (hfits p rfl), lastOpened]
          rcases hwritable p rfl with hopen | rfl
          · rw [if_pos hopen]
          · split_ifs <;> rfl
  | logMessage stack m =>
      show (logMessage openable s stack m).config.logFilePath = current
      rw [config_logMessage, hcurrent]

/-- **Along which runs the promise is kept**: those in which every path that is switched to can
be opened or is the file opened last, and every enabled message can be printed and comes
while the file opened last can be opened. -/
theorem failed_switch_keeps_log_iff (openable : CString → Bool) (s : State) {calls : List Call}
    (hfits : ∀ call ∈ calls, call.PathFits) :
    Along (watch openable) (KeepsLog openable) (s, s.config.logFilePath) calls ↔
      Along (watch openable) (Writable openable) (s, s.config.logFilePath) calls := by
  refine Runs.along_iff (I := fun watched => watched.1.config.logFilePath = watched.2)
    Call.PathFits ?_ ?_ rfl hfits
  · rintro ⟨s, current⟩ call hcurrent hcall
    exact keepsLog_iff hcurrent hcall
  · rintro ⟨s, current⟩ call _ _ hcurrent hcall hwritable hstep
    cases hstep
    exact logFilePath_step hcurrent hcall hwritable

/-- The logger as it starts. -/
def initialState : State where
  config := ⟨str "application.log", 3⟩
  files := fun _ => []
  stderr := []

/-- A switch to a file that can be opened, and a message. -/
theorem failed_switch_keeps_log_on_switch :
    Along (watch fun _ => true) (KeepsLog fun _ => true) (initialState, str "application.log")
      [.setLogFile (some (str "new.log")),
        .logMessage (Vector.replicate 2048 0) (errorMessage (str "disk full") (by decide))] := by
  refine (failed_switch_keeps_log_iff (fun _ => true) initialState ?_).mpr ?_
  · simp only [List.forall_mem_cons]
    refine ⟨?_, trivial, fun _ h => nomatch h⟩
    rintro _ ⟨⟩
    decide
  · rw [Runs.along_cons]
    refine ⟨fun _ _ => Or.inl rfl, ?_⟩
    rintro _ _ ⟨⟩
    rw [Runs.along_cons]
    exact ⟨fun _ => ⟨rfl, by decide⟩, fun _ _ _ => Runs.along_nil _⟩

/-- After a switch that fails, a message does not reach the previous file. -/
theorem message_lost_after_failed_switch :
    ¬ ∀ openable s calls, (∀ call ∈ calls, call.PathFits) →
      Along (watch openable) (KeepsLog openable) (s, s.config.logFilePath) calls := by
  intro h
  have hkeeps := h (fun p => p == str "application.log") initialState
    [.setLogFile (some (str "/none/new.log")),
      .logMessage (Vector.replicate 2048 0) (errorMessage (str "disk full") (by decide))]
    (by
      simp only [List.forall_mem_cons]
      refine ⟨?_, trivial, fun _ h => nomatch h⟩
      rintro _ ⟨⟩
      decide)
    [.setLogFile (some (str "/none/new.log"))] _ [] _ _ rfl rfl
  obtain ⟨logBuffer, hrecord, hstate⟩ := hkeeps (by decide)
  have hfile := congrFun (congrArg State.files hstate) (str "application.log")
  rw [files_logMessage _ _ (by decide)] at hfile
  have hnil : logBuffer = [] := hfile.symm
  rw [hnil] at hrecord
  revert hrecord
  decide +kernel

end Logger
