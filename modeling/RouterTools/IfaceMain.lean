/-
# From `ifconfig` to the saved list

The interface manager as a whole: `main` captures the output of `ifconfig -a`, reads it back,
parses it and saves the list, and logs what it does.  The logger ends the program where it cannot
open its file.  `RunInput.ends` says how a run ends, whichever of its calls fails (the writes to
the opened list do not: `main` does not learn of it).  Over any number of runs the saved list can
always be read back (`interface_manager_runs`), and a run in which nothing fails saves the
interfaces that `ifconfig` has shown, exactly when no name hides a MAC
(`interface_manager_round_trip_iff`).
-/
import RouterTools.IfaceNames
import RouterTools.IfaceRoundTrip
import RouterTools.RunCommand

namespace Iface

open CString

/-! ## One run -/

/-- `LOG_FILE_PATH`. -/
def logFilePath : CString := str "/home/test/interface_manager/database/log.txt"

/-- Where among the operations on the other files the `LOG` call stands that cannot open the log:
`LOG_printf_info` then ends the program with `EXIT_FAILURE`. -/
inductive LogFailure where
  /-- up to the `fopen` of the data file -/
  | beforeCapture
  /-- while the data file is open; what `exit` leaves in it -/
  | capturing (left : CString)
  /-- behind its `fclose`, up to the `fopen` of the saved list -/
  | captured
  /-- behind that `fopen`, in front of the first node -/
  | listOpened
  /-- behind the `fclose` of the saved list -/
  | listSaved

/-- What a run of the program finds: the commands and the outcomes of the calls, the logger's too,
and what the logger leaves in its file. -/
structure RunInput where
  sys : System
  io : LoadOutcomes
  heap : Alloc
  saveOpens : Bool
  logFailure : Option LogFailure
  log : Option CString

/-- What `ifconfig -a` prints. -/
def RunInput.output (input : RunInput) : CString := (input.sys.process pathCmd).output

/-- The list that is parsed from it, up to the first NUL. -/
def RunInput.parsed (input : RunInput) : List Node :=
  (parseDataBuffer [] (some (input.output.takeWhile (· ≠ 0))) input.heap).1

/-- The capture of the run. -/
def RunInput.capture (input : RunInput) (files : Files) : Capture :=
  runCommandAndSave input.sys pathCmd pathDataFile files

/-- `main` with the logger's exits, on the files other than the log.  A `LOG` call that the run
does not get to does not matter. -/
def RunInput.mainLogging (input : RunInput) (files : Files) : MainRun :=
  let capture := input.capture files
  let r := main input.sys input.io input.heap input.saveOpens files
  match input.logFailure with
  | none => r
  | some .beforeCapture => ⟨1, false, files⟩
  | some (.capturing left) =>
      if input.sys.popen && input.sys.fopen then
        ⟨1, false, Function.update files pathDataFile (some left)⟩
      else r
  | some .captured => ⟨1, false, capture.files⟩
  | some .listOpened =>
      if r.exitCode = 0 then
        ⟨1, input.saveOpens, if input.saveOpens then
          Function.update capture.files pathMyIfaceList (some []) else capture.files⟩
      else r
  | some .listSaved => { r with exitCode := 1 }

/-- The run. -/
def RunInput.run (input : RunInput) (files : Files) : MainRun :=
  let r := input.mainLogging files
  { r with files := Function.update r.files logFilePath input.log }

/-- Every call of the run succeeds, up to the `fopen` of the saved list. -/
structure RunInput.Succeeds (input : RunInput) : Prop where
  sys : input.sys.Succeeds
  io : input.io.Succeeds
  log : input.logFailure = none

/-- What a run that opens the saved list leaves in it: nothing, where the logger ends the program
right behind the `fopen`. -/
def RunInput.saved (input : RunInput) : List Node :=
  match input.logFailure with
  | some .listOpened => []
  | _ => input.parsed

/-- The ways a run ends: something fails before the saved list is opened, it cannot be opened, or
it is opened. -/
inductive Ended (input : RunInput) (files : Files) : MainRun → Prop where
  | failed {files' : Files} (hfails : ¬ input.Succeeds)
      (hother : ∀ path, path ≠ pathDataFile → files' path = files path) :
      Ended input files ⟨1, false, files'⟩
  | notOpened {exitCode : ℕ} (hcode : exitCode = 0 ↔ input.Succeeds) :
      Ended input files ⟨exitCode, false, Function.update files pathDataFile (some input.output)⟩
  | opened {exitCode : ℕ} (hcode : exitCode = 0 ↔ input.Succeeds) :
      Ended input files ⟨exitCode, true, Function.update
        (Function.update files pathDataFile (some input.output)) pathMyIfaceList
        (some (saveNodes input.saved))⟩

/-- The `fopen` of the saved list has succeeded or failed. -/
theorem ended_of_reached {input : RunInput} {files files' : Files} {exitCode : ℕ} {l : List Node}
    (hcode : exitCode = 0 ↔ input.Succeeds) (hl : input.saved = l)
    (hfiles : files' = Function.update files pathDataFile (some input.output)) :
    Ended input files ⟨exitCode, input.saveOpens, if input.saveOpens then
      Function.update files' pathMyIfaceList (some (saveNodes l)) else files'⟩ := by
  subst hl hfiles
  cases input.saveOpens with
  | false => exact .notOpened hcode
  | true => exact .opened hcode

theorem pathMyIfaceList_ne : pathMyIfaceList ≠ pathDataFile := by decide

/-- What a capture leaves of the other files. -/
theorem RunInput.capture_other (input : RunInput) (files : Files) :
    ∀ path, path ≠ pathDataFile → (input.capture files).files path = files path :=
  fun _ hne => runCommandAndSave_files_of_ne input.sys pathCmd hne files

/-- **How `main` ends**: with exit code 1 before the saved list is opened, or with 0. -/
theorem main_cases (input : RunInput) (files : Files) :
    (¬ (input.sys.Succeeds ∧ input.io.Succeeds) ∧
      main input.sys input.io input.heap input.saveOpens files =
        ⟨1, false, (input.capture files).files⟩) ∨
    (input.sys.Succeeds ∧ input.io.Succeeds ∧
      (input.capture files).files = Function.update files pathDataFile (some input.output) ∧
      main input.sys input.io input.heap input.saveOpens files =
        ⟨0, input.saveOpens, if input.saveOpens then
          Function.update (input.capture files).files pathMyIfaceList
            (some (saveNodes input.parsed)) else (input.capture files).files⟩) := by
  unfold main
  dsimp only
  rcases runCommandAndSave_cases input.sys pathCmd pathDataFile files with
    ⟨hsys, hrun⟩ | ⟨hsys, ran, files', hrun, -⟩
  · have hcapture : input.capture files = _ := hrun
    rw [hrun, hcapture, if_pos rfl]
    dsimp only
    rw [Function.update_self]
    by_cases hio : input.io.Succeeds
    · have hload : loadDataFromFile input.io (some (input.sys.process pathCmd).output) =
          some (input.output.takeWhile (· ≠ 0)) := loadDataFromFile_some_iff.mpr ⟨hio, rfl⟩
      rw [hload]
      refine .inr ⟨hsys, hio, rfl, ?_⟩
      cases hopens : input.saveOpens with
      | false =>
          rw [if_neg Bool.false_ne_true]
          dsimp only
          rw [saveListToFile, if_neg Bool.false_ne_true, Function.update_eq_self]
      | true => rfl
    · cases hload : loadDataFromFile input.io (some (input.sys.process pathCmd).output) with
      | none => exact .inl ⟨fun h => hio h.2, rfl⟩
      | some buffer => exact absurd (loadDataFromFile_some_iff.mp hload).1 hio
  · have hcapture : input.capture files = _ := hrun
    rw [hrun, hcapture]
    exact .inl ⟨fun h => hsys h.1, rfl⟩

/-- **How a run ends.** -/
theorem RunInput.ends (input : RunInput) (files : Files) :
    Ended input files (input.mainLogging files) := by
  have hother := input.capture_other files
  unfold RunInput.mainLogging
  rcases main_cases input files with ⟨hno, hrun⟩ | ⟨hsys, hio, hdata, hrun⟩
  · -- the run is over before the saved list is opened, with the logger or without it
    have hfails : ¬ input.Succeeds := fun h => hno ⟨h.sys, h.io⟩
    rw [hrun]
    rcases input.logFailure with - | - | left | - | - | -
    · exact .failed hfails hother
    · exact .failed hfails fun _ _ => rfl
    · dsimp only
      split_ifs
      · exact .failed hfails fun path hne => Function.update_of_ne hne _ _
      · exact .failed hfails hother
    · exact .failed hfails hother
    · exact .failed hfails hother
    · exact .failed hfails hother
  · rw [hrun]
    have hlogs : input.logFailure ≠ none → ¬ input.Succeeds := fun hne h => hne h.log
    have hexits : input.logFailure ≠ none → (1 = 0 ↔ input.Succeeds) := fun hne =>
      iff_of_false Nat.one_ne_zero (hlogs hne)
    rcases hlog : input.logFailure with - | - | left | - | - | -
    · exact ended_of_reached (iff_of_true rfl ⟨hsys, hio, hlog⟩) (by rw [saved, hlog]) hdata
    · exact .failed (hlogs (by simp [hlog])) fun _ _ => rfl
    · dsimp only
      rw [hsys.popen, hsys.fopen]
      exact .failed (hlogs (by simp [hlog])) fun path hne => Function.update_of_ne hne _ _
    · exact .failed (hlogs (by simp [hlog])) hother
    · exact ended_of_reached (l := []) (hexits (by simp [hlog])) (by rw [saved, hlog]) hdata
    · exact ended_of_reached (hexits (by simp [hlog])) (by rw [saved, hlog]) hdata

/-- What is saved is read back from its file, whatever the bytes of the output. -/
theorem decodeSaved_saved (input : RunInput) :
    decodeSaved (saveNodes input.saved) = some input.saved := by
  have hnone : ∀ node ∈ ([] : List Node), IsLines node := fun node hnode => nomatch hnode
  apply decodeSaved_saveNodes
  unfold RunInput.saved
  split
  · exact hnone
  · exact parseDataBuffer_isLines hnone _ _

theorem namesUnique_saved (input : RunInput) : NamesUnique input.saved := by
  unfold RunInput.saved
  split
  · exact NamesUnique.nil
  · exact (parseDataBuffer_grows [] _ _).2 NamesUnique.nil

/-! ## Many runs -/

/-- The saved list is not there, or it is read back as a list of distinct non-empty names. -/
def Readable (file : Option CString) : Prop :=
  ∀ text, file = some text → ∃ l, decodeSaved text = some l ∧ NamesUnique l

/-- What a run does to the files. -/
structure RunSound (input : RunInput) (files : Files) (r : MainRun) : Prop where
  /-- The exit code tells of the capture, the load and the logger. -/
  exitCode : r.exitCode = 0 ↔ input.Succeeds
  replaced : r.replaced = true →
    r.files pathDataFile = some input.output ∧
      (r.files pathMyIfaceList).bind decodeSaved = some input.saved
  kept : r.replaced = false → r.files pathMyIfaceList = files pathMyIfaceList
  readable : Readable (files pathMyIfaceList) → Readable (r.files pathMyIfaceList)
  others : ∀ path, path ≠ pathDataFile → path ≠ pathMyIfaceList → path ≠ logFilePath →
    r.files path = files path

theorem Ended.sound {input : RunInput} {files : Files} {r : MainRun} (h : Ended input files r) :
    RunSound input files r := by
  have hdata : ∀ path, path ≠ pathDataFile →
      Function.update files pathDataFile (some input.output) path = files path :=
    fun path hpath => Function.update_of_ne hpath _ _
  cases h with
  | failed hfails hother =>
      refine ⟨iff_of_false Nat.one_ne_zero hfails, fun h => (nomatch h),
        fun _ => hother _ pathMyIfaceList_ne, fun hfile => ?_,
        fun path hpath _ _ => hother path hpath⟩
      dsimp only
      rwa [hother _ pathMyIfaceList_ne]
  | notOpened hcode =>
      refine ⟨hcode, fun h => (nomatch h), fun _ => hdata _ pathMyIfaceList_ne, fun hfile => ?_,
        fun path hpath _ _ => hdata path hpath⟩
      dsimp only
      rwa [hdata _ pathMyIfaceList_ne]
  | opened hcode =>
      have hlist : Function.update (Function.update files pathDataFile (some input.output))
          pathMyIfaceList (some (saveNodes input.saved)) pathMyIfaceList =
            some (saveNodes input.saved) := Function.update_self _ _ _
      refine ⟨hcode, fun _ => ⟨?_, ?_⟩, fun h => (nomatch h), ?_, ?_⟩
      · dsimp only
        rw [Function.update_of_ne pathMyIfaceList_ne.symm, Function.update_self]
      · dsimp only
        rw [hlist]
        exact decodeSaved_saved input
      · intro _ text htext
        dsimp only at htext
        rw [hlist] at htext
        rw [← Option.some.inj htext]
        exact ⟨_, decodeSaved_saved input, namesUnique_saved input⟩
      · intro path hpath hpath' _
        exact (Function.update_of_ne hpath' _ _).trans (hdata path hpath)

/-- The log is another file. -/
theorem RunSound.logged {input : RunInput} {files : Files} {r : MainRun}
    (h : RunSound input files r) (log : Option CString) :
    RunSound input files { r with files := Function.update r.files logFilePath log } := by
  have hdata : Function.update r.files logFilePath log pathDataFile = r.files pathDataFile :=
    Function.update_of_ne (by decide) _ _
  have hlist : Function.update r.files logFilePath log pathMyIfaceList =
      r.files pathMyIfaceList := Function.update_of_ne (by decide) _ _
  refine ⟨h.exitCode, ?_, ?_, ?_, fun path hpath hpath' hpath'' => ?_⟩
  · dsimp only
    rw [hdata, hlist]
    exact h.replaced
  · dsimp only
    rw [hlist]
    exact h.kept
  · dsimp only
    rw [hlist]
    exact h.readable
  · exact (Function.update_of_ne hpath'' _ _).trans (h.others path hpath hpath' hpath'')

theorem RunInput.sound (input : RunInput) (files : Files) :
    RunSound input files (input.run files) :=
  (input.ends files).sound.logged input.log

/-- A run as a step on the files. -/
def runStep (files : Files) (input : RunInput) : Option (Files × ℕ) :=
  some ((input.run files).files, (input.run files).exitCode)

/-- **However often the interface manager is run, whichever calls fail in each run, those of the
logger among them**: a saved list is there only if it is read back as a list of distinct names,
namely as what the last run that opened it has parsed, or as the empty list where the logger ended
that run before the first node; a run that did not open it has left it as it was; and no file but
the two and the log is touched. -/
theorem interface_manager_runs (start : Files) (hstart : Readable (start pathMyIfaceList))
    (inputs : List RunInput) :
    Runs.Along runStep (fun files input => RunSound input files (input.run files) ∧
      Readable ((input.run files).files pathMyIfaceList)) start inputs := by
  intro before input after files os hsplit hrun
  have hreadable : Readable (files pathMyIfaceList) := by
    refine Runs.run_invariant (I := fun files => Readable (files pathMyIfaceList)) ?_ before
      hstart hrun
    intro files₁ input₁ files₂ code hfiles₁ hstep
    cases hstep
    exact (input₁.sound files₁).readable hfiles₁
  have hsound := input.sound files
  exact ⟨hsound, hsound.readable hreadable⟩

/-- A run without `ifconfig`, from no files, and one that the logger ends when the list is open. -/
theorem interface_manager_runs_without_ifconfig :
    Runs.Along runStep (fun files input => RunSound input files (input.run files) ∧
        Readable ((input.run files).files pathMyIfaceList)) (fun _ => none)
      [⟨noIfconfig, ⟨true, true, true, true, true⟩, [], true, none, none⟩,
        ⟨noIfconfig, ⟨true, true, true, true, true⟩, [], true, some .listOpened, none⟩] :=
  interface_manager_runs (fun _ => none) (fun _ h => nomatch h) _

/-! ## The round trip of a run -/

/-- **A run in which nothing fails** saves the interfaces that `ifconfig` has shown, exactly when
nothing of what it shows of them is taken for a marker. -/
theorem interface_manager_round_trip_iff (input : RunInput) (files : Files)
    (ps : List (Record × Layout)) (hdistinct : (ps.map fun p => p.1.name.bytes).Nodup)
    (houtput : input.output = render ps) (hnul : 0 ∉ render ps) (hsys : input.sys.Succeeds)
    (hio : input.io.Succeeds) (hheap : AllocationsSucceed input.heap)
    (hopens : input.saveOpens = true) (hlog : input.logFailure = none) :
    ((input.run files).files pathMyIfaceList).bind decodeSaved = some (ps.map fun p => p.1.node) ↔
      ∀ p ∈ ps, MacUnshadowed p.1 p.2 ∧ FlagsHarmless p.1 p.2 := by
  have htext : input.output.takeWhile (· ≠ 0) = render ps := by
    rw [houtput]
    apply List.takeWhile_eq_self_iff.mpr
    intro b hb
    rw [decide_eq_true_iff]
    rintro rfl
    exact hnul hb
  have hparsed : input.parsed = ps.map fun p => seenNode p.1 p.2 := by
    rw [RunInput.parsed, htext]
    exact parseDataBuffer_render ps hdistinct hheap
  have hrun : (input.run files).replaced = (main input.sys input.io input.heap input.saveOpens
      files).replaced := by
    rw [RunInput.run, RunInput.mainLogging, hlog]
  have hreplaced : (input.run files).replaced = true := by
    rw [hrun]
    exact (replaced_iff _ _ _ _ _).mpr ⟨hsys, hio, hopens⟩
  have hsaved : input.saved = input.parsed := by rw [RunInput.saved, hlog]
  rw [((input.sound files).replaced hreplaced).2, hsaved, hparsed, Option.some.injEq,
    List.map_inj_left]
  exact forall₂_congr fun p _ => seenNode_eq_iff p.1 p.2

/-- A system whose `ifconfig` shows the interfaces. -/
def systemShowing (ps : List (Record × Layout)) : System :=
  { noIfconfig with process := fun _ => ⟨render ps, .exited 0⟩ }

/-- `ens33` of the sample of the database. -/
def sampleShown : List (Record × Layout) :=
  [(sampleRecord (literal "ens33" (by decide) (by decide) (by decide))
    (some (literal "00:0c:29:ff:74:cc" (by decide) (by decide) (by decide))), sampleLayout)]

/-- It is shown, parsed, saved and read back. -/
theorem interface_manager_round_trip_sample :
    (((RunInput.run ⟨systemShowing sampleShown, ⟨true, true, true, true, true⟩, [], true, none,
      none⟩ fun _ => none).files pathMyIfaceList).bind decodeSaved) =
        some (sampleShown.map fun p => p.1.node) := by
  refine (interface_manager_round_trip_iff
    ⟨systemShowing sampleShown, ⟨true, true, true, true, true⟩, [], true, none, none⟩
    (fun _ => none) sampleShown (List.nodup_singleton _) rfl ?_ ?_ ⟨rfl, rfl, rfl, rfl, rfl⟩
    (fun ok hok => nomatch hok) rfl rfl).mpr ?_
  · decide +kernel
  · exact ⟨rfl, rfl, fun n _ => (Option.some_ne_none n).symm, fun n _ => rfl, rfl, rfl⟩
  · intro p hp
    rw [List.mem_singleton.mp hp]
    exact sampleRecord_unmarked (by decide)

end Iface
