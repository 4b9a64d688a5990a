/-
# A run of the interface manager in memory

`main` of the interface manager with everything that it allocates: the streams of the capture, of
the load and of the saved list, the buffer, and the list.  The calls of the C library fail where
`RunCommand` lets them fail, and where there is no memory; the writes to the saved list fail too.
The streams that `LOG_printf_info` opens and closes for itself are left out.

Whatever fails, a run gives back what it took, each block once, and it is the run of
`RunCommand.main` with what the allocator answered (`interface_process_keeps_memory`).
-/
import RouterTools.IfacePrograms
import RouterTools.RunCommand

namespace IfaceMemory

open Blocks Iface CString IfaceParser

variable {P : Type} [DecidableEq P]

/-! ## The functions of the source -/

/-- What a run finds: the allocator and what fresh blocks hold, the commands, and the outcomes of
the other calls.  The allocator answers for `malloc`, and `io.malloc` is not looked at. -/
structure Setting (P : Type) where
  machine : Machine P
  junkText : CString
  sys : System
  io : LoadOutcomes
  saveOpens : Bool
  /-- The number of bytes that reach the saved list where a write to it or the close fails. -/
  saveCut : Option ℕ

variable (X : Setting P)

/-- `fopen` and `popen`: NULL where the system does not grant the call, or where there is no memory
for the `FILE`. -/
def openStream (granted : Bool) (contents : CString) : Prog P (Block P) (Option P) :=
  allocate X.machine.allocator granted (.stream ⟨[], contents, false⟩)

/-- `fgetc`, which fails behind the byte `readError`. -/
def fgetc (readError : Option ℕ) (stream : Option P) : Prog P (Block P) (Option UInt8) := do
  let s ← read Block.asStream stream
  if readError = some s.before.length then
    write stream (.stream { s with error := true })
    return none
  match s.after with
  | [] => return none
  | character :: rest => do
      write stream (.stream { s with before := s.before ++ [character], after := rest })
      return some character

/-- `fputc`, which succeeds at the bytes of `succeeds`. -/
def fputc (succeeds : ℕ → Bool) (character : UInt8) (stream : Option P) :
    Prog P (Block P) Bool := do
  let s ← read Block.asStream stream
  if succeeds s.before.length then
    write stream (.stream { s with before := s.before ++ [character] })
    return true
  else
    write stream (.stream { s with error := true })
    return false

/-- `fprintf`. -/
def fprintf (stream : Option P) (text : CString) : Prog P (Block P) Unit := do
  let s ← read Block.asStream stream
  write stream (.stream { s with before := s.before ++ text })

/-- `fread` of everything. -/
def fread (stream : Option P) : Prog P (Block P) CString := do
  let s ← read Block.asStream stream
  return s.after

/-- `ferror`. -/
def ferror (stream : Option P) : Prog P (Block P) Bool := do
  let s ← read Block.asStream stream
  return s.error

/-- `fclose` and `pclose`, with what went through the stream. -/
def fclose (stream : Option P) : Prog P (Block P) CString := do
  let s ← read Block.asStream stream
  free stream
  return s.before

/-- The copy loop, which is left early where `fputc` fails. -/
def copyLoop (sys : System) (cmdPipe outFile : Option P) : ℕ → Prog P (Block P) Bool
  | 0 => fail .outOfFuel
  | fuel + 1 => do
      let character ← fgetc sys.readError cmdPipe
      match character with
      | none => return true
      | some character => do
          let put ← fputc sys.fputc character outFile
          if put then copyLoop sys cmdPipe outFile fuel else return false

/-- The files after the close of the output file. -/
def stored (sys : System) (outputFilename written : CString) (files : Files) : Files :=
  Function.update files outputFilename
    (some (if sys.fclose then written else written.take sys.flushed))

/-- `run_command_and_save`. -/
def runCommandAndSave (outputFilename : CString) (files : Files) : Prog P (Block P) Capture := do
  let cmdPipe ← openStream X X.sys.popen (X.sys.process pathCmd).output
  if cmdPipe.isNone then return ⟨false, none, files⟩
  let outFile ← openStream X X.sys.fopen []
  if outFile.isNone then
    let _ ← fclose cmdPipe
    return ⟨false, some pathCmd, files⟩
  let copied ← copyLoop X.sys cmdPipe outFile X.machine.fuel
  if !copied then
    let written ← fclose outFile
    let _ ← fclose cmdPipe
    return ⟨false, some pathCmd,
      Function.update files outputFilename (some (written.take X.sys.flushed))⟩
  let failed ← ferror cmdPipe
  if failed then
    let written ← fclose outFile
    let _ ← fclose cmdPipe
    return ⟨false, some pathCmd, stored X.sys outputFilename written files⟩
  let written ← fclose outFile
  if !X.sys.fclose then
    let _ ← fclose cmdPipe
    return ⟨false, some pathCmd, stored X.sys outputFilename written files⟩
  let _ ← fclose cmdPipe
  return ⟨X.sys.pclose, some pathCmd, stored X.sys outputFilename written files⟩

/-- `load_data_from_file`. -/
def loadDataFromFile (file : Option CString) : Prog P (Block P) (Option P) :=
  match file with
  | none => pure none
  | some bytes => do
      let fp ← openStream X X.io.fopen bytes
      if fp.isNone then return none
      if !X.io.fseek then
        let _ ← fclose fp
        return none
      if !X.io.ftell then
        let _ ← fclose fp
        return none
      let buffer ← malloc X.machine.allocator (.text X.junkText)
      if buffer.isNone then
        let _ ← fclose fp
        return none
      let contents ← fread fp
      if !X.io.fread then
        free buffer
        let _ ← fclose fp
        return none
      write buffer (.text (contents.takeWhile (· ≠ 0)))
      let _ ← fclose fp
      return buffer

/-- What reaches the saved list of what is written to it. -/
def Setting.reaches (written : CString) : CString :=
  match X.saveCut with
  | none => written
  | some n => written.take n

/-- `save_list_to_file` with its stream; what the file holds afterwards if it was opened.  That a
`fprintf` or the `fclose` fails is logged at most. -/
def saveListToStream (head : Option P) : Prog P (Block P) (Option CString) := do
  let fp ← openStream X X.saveOpens []
  if fp.isNone then return none
  let text ← writeNodes savedNode X.machine.fuel 1 head
  fprintf fp text
  let written ← fclose fp
  return some (X.reaches written)

/-- What a run leaves behind, and what it says of the two interfaces that it looks for. -/
structure ProcessRun where
  run : MainRun
  found : List (Option (CString × CString))

/-- `main`, less its `LOG` calls. -/
def main (files : Files) : Prog P (Block P) ProcessRun := do
  let capture ← runCommandAndSave X pathDataFile files
  if !capture.returned then return ⟨⟨1, false, capture.files⟩, []⟩
  let fileBuffer ← loadDataFromFile X (capture.files pathDataFile)
  if fileBuffer.isNone then return ⟨⟨1, false, capture.files⟩, []⟩
  let data ← read Block.asText fileBuffer
  let head ← parseDataBuffer X.machine none (some data)
  free fileBuffer
  let saved ← saveListToStream X head
  let ens33 ← testSearch X.machine head (str "ens33")
  let wlan0 ← testSearch X.machine head (str "wlan0")
  listDestroy X.machine head
  match saved with
  | none => return ⟨⟨0, false, capture.files⟩, [ens33, wlan0]⟩
  | some text =>
      return ⟨⟨0, true, Function.update capture.files pathMyIfaceList (some text)⟩,
        [ens33, wlan0]⟩

/-! ## Streams -/

variable {X} {frame : P → Option (Block P)} {m m' : Memory P (Block P)} {as : List P}
  {p q : P} {s t : Stream}

/-- A call that needs memory, when the allocator goes on with these answers: it takes one where
the system grants the call. -/
def grant (granted : Bool) (heap : Alloc) : Bool × Alloc :=
  if granted then alloc heap else (false, heap)

/-- A stream is refused, or it is a block that was not in use. -/
theorem ends_bind_openStream {α : Type} {Q : α → Memory P (Block P) → Prop}
    {E : Fault → Memory P (Block P) → Prop} (granted : Bool) (contents : CString)
    {f : Option P → Prog P (Block P) α}
    (hrefused : ∀ used m', m'.cells = m.cells → Answered used m m' →
      (∀ heap, grant granted (used ++ heap) = (false, heap)) → Ends (f none) m' Q E)
    (hgiven : granted = true → ∀ p m', m.cells p = none →
      m'.cells = Function.update m.cells p (some (.stream ⟨[], contents, false⟩)) →
      Answered [true] m m' → Ends (f (some p)) m' Q E) :
    Ends (openStream X granted contents >>= f) m Q E := by
  refine ends_bind_allocate X.machine.allocator granted _ (fun hno => ?_) (fun hgranted => ?_) hgiven
  · subst hno
    exact hrefused [] m rfl (.of_eq rfl) fun _ => rfl
  · subst hgranted
    exact fun m' hcells hused => hrefused [false] m' hcells hused fun _ => rfl

/-- A stream is closed. -/
theorem fclose_ok (hp : m.cells p = some (.stream s)) :
    fclose (some p) m = (.ok s.before, m.erase p) := by
  rw [fclose, bind_ok (readStream_ok hp), bind_ok (free_ok hp)]
  rfl

theorem fgetc_error {readError : Option ℕ} (hp : m.cells p = some (.stream s))
    (h : readError = some s.before.length) :
    fgetc readError (some p) m = (.ok none, m.set p (.stream { s with error := true })) := by
  rw [fgetc, bind_ok (readStream_ok hp), if_pos h, bind_ok (write_ok hp _)]
  rfl

theorem fgetc_end {readError : Option ℕ} (hp : m.cells p = some (.stream s))
    (h : readError ≠ some s.before.length) (hafter : s.after = []) :
    fgetc readError (some p) m = (.ok none, m) := by
  rw [fgetc, bind_ok (readStream_ok hp), if_neg h, hafter]
  rfl

theorem fgetc_byte {readError : Option ℕ} {character : UInt8} {rest : CString}
    (hp : m.cells p = some (.stream s)) (h : readError ≠ some s.before.length)
    (hafter : s.after = character :: rest) :
    fgetc readError (some p) m = (.ok (some character),
      m.set p (.stream { s with before := s.before ++ [character], after := rest })) := by
  rw [fgetc, bind_ok (readStream_ok hp), if_neg h, hafter]
  dsimp only
  rw [bind_ok (write_ok hp _)]
  rfl

theorem fputc_ok (succeeds : ℕ → Bool) (character : UInt8) (hq : m.cells q = some (.stream t)) :
    fputc succeeds character (some q) m = (.ok (succeeds t.before.length),
      m.set q (.stream (if succeeds t.before.length
        then { t with before := t.before ++ [character] } else { t with error := true }))) := by
  rw [fputc, bind_ok (readStream_ok hq)]
  cases h : succeeds t.before.length with
  | false =>
      rw [if_neg (by simp), if_neg (by simp), bind_ok (write_ok hq _)]
      rfl
  | true =>
      rw [if_pos rfl, if_pos rfl, bind_ok (write_ok hq _)]
      rfl

/-- Two streams are closed, one after the other. -/
theorem fclose_both (h : Owns frame m.cells [q, p]) (hq : m.cells q = some (.stream t))
    (hp : m.cells p = some (.stream s)) :
    ∃ m₁ m₂, fclose (some q) m = (.ok t.before, m₁) ∧ fclose (some p) m₁ = (.ok s.before, m₂) ∧
      m₂.cells = frame ∧ m₂.answers = m.answers := by
  have hne : p ≠ q := by
    rintro rfl
    exact (List.nodup_cons.mp h.nodup).1 List.mem_cons_self
  have hp₁ : (m.erase q).cells p = some (.stream s) := (Function.update_of_ne hne _ _).trans hp
  exact ⟨_, _, fclose_ok hq, fclose_ok hp₁, h.free.free.eq_of_nil, rfl⟩

/-- What the copy loop does to the streams, behind the bytes `written`. -/
structure Copied (sys : System) (rest written : CString) (p q : P) (m m' : Memory P (Block P)) :
    Prop where
  pipe : ∃ s, m'.cells p = some (.stream s) ∧
    (s.error = true ↔ (Iface.copyLoop sys rest written).1 = .readFailed)
  file : ∃ t, m'.cells q = some (.stream t) ∧ t.before = (Iface.copyLoop sys rest written).2
  others : ∀ a, a ≠ p → a ≠ q → m'.cells a = m.cells a
  answers : m'.answers = m.answers

/-- A read that fails ends the loop. -/
theorem copyLoop_readError {sys : System} (hne : p ≠ q) {rest written : CString} (fuel : ℕ)
    {m : Memory P (Block P)} (hp : m.cells p = some (.stream ⟨written, rest, false⟩))
    (hq : m.cells q = some (.stream ⟨written, [], false⟩))
    (herror : sys.readError = some written.length) :
    ∃ m', copyLoop sys (some p) (some q) (fuel + 1) m =
        (.ok (decide ((Iface.copyLoop sys rest written).1 ≠ .writeFailed)), m') ∧
      Copied sys rest written p q m m' := by
  have hpure : Iface.copyLoop sys rest written = (.readFailed, written) := by
    cases rest <;> rw [Iface.copyLoop, if_pos herror]
  rw [copyLoop, bind_ok (fgetc_error hp herror), hpure]
  refine ⟨_, rfl, ⟨_, Function.update_self _ _ _, iff_of_true rfl ?_⟩,
    ⟨⟨written, [], false⟩, ?_, ?_⟩, fun a ha _ => Function.update_of_ne ha _ _, rfl⟩
  · rw [hpure]
  · exact (Function.update_of_ne hne.symm _ _).trans hq
  · rw [hpure]

/-- **The copy loop.** -/
theorem copyLoop_ok (sys : System) (hne : p ≠ q) (rest : CString) :
    ∀ (written : CString) (fuel : ℕ) (m : Memory P (Block P)), rest.length < fuel →
      m.cells p = some (.stream ⟨written, rest, false⟩) →
      m.cells q = some (.stream ⟨written, [], false⟩) →
      ∃ m', copyLoop sys (some p) (some q) fuel m =
          (.ok (decide ((Iface.copyLoop sys rest written).1 ≠ .writeFailed)), m') ∧
        Copied sys rest written p q m m' := by
  induction rest with
  | nil =>
      intro written fuel m hfuel hp hq
      obtain ⟨fuel, rfl⟩ : ∃ n, fuel = n + 1 := ⟨fuel - 1, by omega⟩
      by_cases herror : sys.readError = some written.length
      · exact copyLoop_readError hne fuel hp hq herror
      · have hpure : Iface.copyLoop sys [] written = (.endOfOutput, written) := by
          rw [Iface.copyLoop, if_neg herror]
        rw [copyLoop, bind_ok (fgetc_end hp herror rfl), hpure]
        refine ⟨m, rfl, ⟨_, hp, iff_of_false (by simp) ?_⟩, ⟨_, hq, ?_⟩, fun _ _ _ => rfl, rfl⟩
        · rw [hpure]
          simp
        · rw [hpure]
  | cons character rest ih =>
      intro written fuel m hfuel hp hq
      obtain ⟨fuel, rfl⟩ : ∃ n, fuel = n + 1 := ⟨fuel - 1, by omega⟩
      rw [List.length_cons] at hfuel
      by_cases herror : sys.readError = some written.length
      · exact copyLoop_readError hne fuel hp hq herror
      · -- a byte is read, and the loop goes on where it is written
        let m₁ := m.set p (.stream ⟨written ++ [character], rest, false⟩)
        have hget : fgetc sys.readError (some p) m = (.ok (some character), m₁) :=
          fgetc_byte hp herror rfl
        have hq₁ : m₁.cells q = some (.stream ⟨written, [], false⟩) :=
          (Function.update_of_ne hne.symm _ _).trans hq
        have hput := fputc_ok sys.fputc character hq₁
        rw [copyLoop, bind_ok hget]
        dsimp only
        rw [bind_ok hput]
        dsimp only at hput ⊢
        by_cases hwrites : sys.fputc written.length = true
        · have hpure : Iface.copyLoop sys (character :: rest) written =
              Iface.copyLoop sys rest (written ++ [character]) := by
            rw [Iface.copyLoop, if_neg herror, if_pos hwrites]
          rw [if_pos hwrites, if_pos hwrites, hpure]
          obtain ⟨m', hrun, hcopied⟩ := ih (written ++ [character]) fuel
            (m₁.set q (.stream ⟨written ++ [character], [], false⟩)) (by omega)
            ((Function.update_of_ne hne _ _).trans (Function.update_self _ _ _))
            (Function.update_self _ _ _)
          refine ⟨m', hrun, ?_, ?_, ?_, hcopied.answers⟩
          · rw [hpure]
            exact hcopied.pipe
          · rw [hpure]
            exact hcopied.file
          · intro a hap haq
            rw [hcopied.others a hap haq]
            exact (Function.update_of_ne haq _ _).trans (Function.update_of_ne hap _ _)
        · have hpure : Iface.copyLoop sys (character :: rest) written =
              (.writeFailed, written) := by
            rw [Iface.copyLoop, if_neg herror, if_neg hwrites]
          rw [if_neg hwrites, if_neg hwrites, hpure]
          refine ⟨_, rfl, ⟨_, (Function.update_of_ne hne _ _).trans (Function.update_self _ _ _),
            iff_of_false (by simp) ?_⟩, ⟨_, Function.update_self _ _ _, ?_⟩, ?_, rfl⟩
          · rw [hpure]
            simp
          · rw [hpure]
          · exact fun a hap haq =>
              (Function.update_of_ne haq _ _).trans (Function.update_of_ne hap _ _)

/-! ## The capture -/

/-- The system, when the allocator goes on with these answers for the pipe and the file. -/
def resolveSystem (sys : System) (heap : Alloc) : System × Alloc :=
  let (pipe, heap) := grant sys.popen heap
  let (file, heap) := grant (pipe && sys.fopen) heap
  ({ sys with popen := pipe, fopen := file }, heap)

theorem resolveSystem_granted {sys : System} (hpopen : sys.popen = true) (hfopen : sys.fopen = true)
    (heap : Alloc) : resolveSystem sys ([true, true] ++ heap) = (sys, heap) := by
  obtain ⟨process, popen, fopen, readError, fputc, flushed, fclose, pclose⟩ := sys
  cases hpopen
  cases hfopen
  rfl

/-- After the copy both streams are closed. -/
theorem Copied.close {sys : System} {rest written : CString} {m' : Memory P (Block P)}
    (h : Copied sys rest written p q m m') (howns : Owns frame m.cells [q, p]) :
    ∃ s m₁ m₂, m'.cells p = some (.stream s) ∧
      (s.error = true ↔ (Iface.copyLoop sys rest written).1 = .readFailed) ∧
      fclose (some q) m' = (.ok (Iface.copyLoop sys rest written).2, m₁) ∧
      fclose (some p) m₁ = (.ok s.before, m₂) ∧ m₂.cells = frame ∧ m₂.answers = m.answers := by
  obtain ⟨s, hs, herror⟩ := h.pipe
  obtain ⟨t, ht, hwritten⟩ := h.file
  have howns' : Owns frame m'.cells [q, p] := by
    apply howns.overwrite
    · intro a ha
      rcases List.mem_cons.mp ha with rfl | ha
      · exact ⟨_, ht⟩
      · rw [List.mem_singleton.mp ha]
        exact ⟨_, hs⟩
    · intro a ha
      rw [List.mem_cons, List.mem_singleton, not_or] at ha
      exact h.others a ha.2 ha.1
  obtain ⟨m₁, m₂, hcloseFile, hclosePipe, hcells, hanswers⟩ := fclose_both howns' ht hs
  rw [hwritten] at hcloseFile
  exact ⟨s, m₁, m₂, hs, herror, hcloseFile, hclosePipe, hcells, hanswers.trans h.answers⟩

/-- A capture for which both streams are granted. -/
theorem runCommandAndSave_opened {sys : System} (hpopen : sys.popen = true)
    (hfopen : sys.fopen = true) (command outputFilename : CString) (files : Files) :
    Iface.runCommandAndSave sys command outputFilename files =
      ⟨decide ((Iface.copyLoop sys (sys.process pathCmd).output []).1 = .endOfOutput) &&
          sys.fclose && sys.pclose, some pathCmd,
        if (Iface.copyLoop sys (sys.process pathCmd).output []).1 = .writeFailed then
          Function.update files outputFilename (some
            ((Iface.copyLoop sys (sys.process pathCmd).output []).2.take sys.flushed))
        else stored sys outputFilename (Iface.copyLoop sys (sys.process pathCmd).output []).2
          files⟩ := by
  rw [Iface.runCommandAndSave, if_pos hpopen, if_pos hfopen, stored]
  generalize Iface.copyLoop sys (sys.process pathCmd).output [] = copied
  obtain ⟨ending, written⟩ := copied
  cases ending <;> cases sys.fclose <;> cases sys.pclose <;> rfl

/-- **`run_command_and_save`** closes what it has opened, and does what `RunCommand` says with the
answers of the allocator. -/
theorem runCommandAndSave_ends (command outputFilename : CString) (files : Files)
    (hfuel : (X.sys.process pathCmd).output.length < X.machine.fuel) :
    Ends (runCommandAndSave X outputFilename files) m
      (fun r m' => m'.cells = m.cells ∧ ∃ used sys, Answered used m m' ∧
        (∀ heap, resolveSystem X.sys (used ++ heap) = (sys, heap)) ∧
        r = Iface.runCommandAndSave sys command outputFilename files)
      (fun _ _ => False) := by
  refine ends_bind_openStream _ _ (fun used m₁ hcells₁ hused hno => ?_)
    fun hpopen p m₁ hfree hcells₁ hused₁ => ?_
  · refine ends_of_ok rfl ⟨hcells₁, used, { X.sys with popen := false, fopen := false }, hused,
      fun heap => ?_, rfl⟩
    rw [resolveSystem, hno]
    rfl
  obtain ⟨howns₁, hp₁, -⟩ := (owns_nil m.cells).given hfree hcells₁
  refine ends_bind_openStream _ _ (fun used m₂ hcells₂ hused hno => ?_)
    fun hfopen q m₂ hfree₂ hcells₂ hused₂ => ?_
  · -- the pipe is closed again
    rw [← hcells₂] at howns₁ hp₁
    refine ends_bind_ok (fclose_ok hp₁) (ends_of_ok rfl ⟨howns₁.free.eq_of_nil, true :: used,
      { X.sys with popen := true, fopen := false }, hused₁.trans (hused.congr rfl rfl),
      fun heap => ?_, rfl⟩)
    simp only [resolveSystem, grant, hpopen, if_true, List.cons_append, alloc, Bool.true_and]
    exact congrArg (fun r => (({ X.sys with popen := true, fopen := r.1 } : System), r.2)) (hno heap)
  -- both streams are open until the end
  obtain ⟨howns₂, hq₂, hkept⟩ := howns₁.given hfree₂ hcells₂
  obtain ⟨hne, hp₂⟩ := hkept p _ hp₁
  obtain ⟨m₃, hloop, hcopied⟩ := copyLoop_ok X.sys hne _ [] X.machine.fuel m₂ hfuel hp₂ hq₂
  obtain ⟨s, m₄, m₅, hs, herror, hcloseFile, hclosePipe, hcells₅, hanswers₅⟩ :=
    hcopied.close howns₂
  have hused : Answered [true, true] m m₅ := (hused₁.trans hused₂).congr rfl hanswers₅
  have hferror : ferror (some p) m₃ = (.ok s.error, m₃) := by
    rw [ferror, bind_ok (readStream_ok hs)]
    rfl
  have hdone : ∀ r, r = Iface.runCommandAndSave X.sys command outputFilename files →
      m₅.cells = m.cells ∧ ∃ used sys, Answered used m m₅ ∧
        (∀ heap, resolveSystem X.sys (used ++ heap) = (sys, heap)) ∧
        r = Iface.runCommandAndSave sys command outputFilename files :=
    fun r hr => ⟨hcells₅, _, _, hused, resolveSystem_granted hpopen hfopen, hr⟩
  have hpure := runCommandAndSave_opened hpopen hfopen command outputFilename files
  refine ends_bind_ok hloop ?_
  cases hending : (Iface.copyLoop X.sys (X.sys.process pathCmd).output []).1 with
  | writeFailed =>
      rw [hending] at hpure
      exact ends_bind_ok hcloseFile (ends_bind_ok hclosePipe (ends_of_ok rfl (hdone _ hpure.symm)))
  | readFailed =>
      have herror : s.error = true := herror.mpr hending
      rw [hending] at hpure
      refine ends_bind_ok hferror ?_
      rw [if_pos herror]
      exact ends_bind_ok hcloseFile (ends_bind_ok hclosePipe (ends_of_ok rfl (hdone _ hpure.symm)))
  | endOfOutput =>
      have herror : ¬ s.error = true := fun h => by simpa [hending] using herror.mp h
      rw [hending] at hpure
      refine ends_bind_ok hferror ?_
      rw [if_neg herror]
      refine ends_bind_ok hcloseFile ?_
      cases hfclose : X.sys.fclose with
      | false =>
          rw [hfclose] at hpure
          exact ends_bind_ok hclosePipe (ends_of_ok rfl (hdone _ hpure.symm))
      | true =>
          rw [hfclose] at hpure
          exact ends_bind_ok hclosePipe (ends_of_ok rfl (hdone _ hpure.symm))

/-! ## The load -/

/-- The outcomes of a load, when the allocator goes on with these answers for the stream and the
buffer. -/
def resolveLoad (io : LoadOutcomes) (heap : Alloc) : LoadOutcomes × Alloc :=
  let (opens, heap) := grant io.fopen heap
  let (buffer, heap) := grant (opens && io.fseek && io.ftell) heap
  ({ io with fopen := opens, malloc := buffer }, heap)

/-- The buffer of a load, in a block that was not in use. -/
def Loaded (text : Option CString) (buffer : Option P) (m m' : Memory P (Block P)) : Prop :=
  match text with
  | none => buffer = none ∧ m'.cells = m.cells
  | some text => ∃ p, buffer = some p ∧ m.cells p = none ∧
      m'.cells = Function.update m.cells p (some (.text text))

/-- A load for which the stream is granted. -/
theorem loadDataFromFile_opened (io : LoadOutcomes) (bytes : CString) (given : Bool) :
    Iface.loadDataFromFile { io with fopen := true, malloc := given } (some bytes) =
      if io.fseek && io.ftell && given && io.fread then some (bytes.takeWhile (· ≠ 0))
      else none := by
  obtain ⟨fopen, fseek, ftell, malloc, fread⟩ := io
  cases fseek <;> cases ftell <;> cases given <;> cases fread <;> rfl

/-- The load, when the stream is granted and the buffer is answered for in this way. -/
theorem resolveLoad_granted {io : LoadOutcomes} (hfopen : io.fopen = true) {used : Alloc}
    {given : Bool}
    (hgiven : ∀ heap, grant (io.fseek && io.ftell) (used ++ heap) = (given, heap)) (heap : Alloc) :
    resolveLoad io (true :: used ++ heap) = ({ io with fopen := true, malloc := given }, heap) := by
  have hopen : grant io.fopen (true :: (used ++ heap)) = (true, used ++ heap) := by
    rw [hfopen]
    rfl
  rw [List.cons_append, resolveLoad, hopen]
  dsimp only
  rw [Bool.true_and, hgiven]

/-- A load that is given up with the file still open leaves nothing. -/
theorem giveUpLoad_ends {io : LoadOutcomes} (hfopen : io.fopen = true) {bytes : CString}
    {m₁ m₂ : Memory P (Block P)} (howns : Owns m.cells m₁.cells [p])
    (hp : m₁.cells p = some (.stream s)) (hused₁ : Answered [true] m m₁) {used : Alloc}
    {given : Bool} (hcells : m₂.cells = m₁.cells) (hused : Answered used m₁ m₂)
    (hgiven : ∀ heap, grant (io.fseek && io.ftell) (used ++ heap) = (given, heap))
    (hfails : (io.fseek && io.ftell && given && io.fread) = false) :
    Ends (do
        let _ ← fclose (some p)
        return none : Prog P (Block P) (Option P)) m₂
      (fun buffer m' => ∃ used io', Answered used m m' ∧
        (∀ heap, resolveLoad io (used ++ heap) = (io', heap)) ∧
        Loaded (Iface.loadDataFromFile io' (some bytes)) buffer m m')
      (fun _ _ => False) := by
  rw [← hcells] at howns hp
  refine ends_bind_ok (fclose_ok hp) (ends_of_ok rfl ⟨true :: used,
    { io with fopen := true, malloc := given }, hused₁.trans (hused.congr rfl rfl),
    resolveLoad_granted hfopen hgiven, ?_⟩)
  rw [loadDataFromFile_opened, hfails]
  exact ⟨rfl, howns.free.eq_of_nil⟩

/-- **`load_data_from_file`** closes the file, and leaves the buffer and nothing else. -/
theorem loadDataFromFile_ends (bytes : CString) :
    Ends (loadDataFromFile X (some bytes)) m
      (fun buffer m' => ∃ used io, Answered used m m' ∧
        (∀ heap, resolveLoad X.io (used ++ heap) = (io, heap)) ∧
        Loaded (Iface.loadDataFromFile io (some bytes)) buffer m m')
      (fun _ _ => False) := by
  refine ends_bind_openStream _ _ (fun used m₁ hcells₁ hused hno => ?_)
    fun hfopen p m₁ hfree hcells₁ hused₁ => ?_
  · refine ends_of_ok rfl ⟨used, { X.io with fopen := false, malloc := false }, hused,
      fun heap => ?_, rfl, hcells₁⟩
    rw [resolveLoad, hno]
    rfl
  obtain ⟨howns₁, hp₁, -⟩ := (owns_nil m.cells).given hfree hcells₁
  cases hfseek : X.io.fseek with
  | false =>
      have hnone : ∀ heap, grant (X.io.fseek && X.io.ftell) ([] ++ heap) = (false, heap) :=
        fun _ => by rw [hfseek]; rfl
      exact giveUpLoad_ends hfopen howns₁ hp₁ hused₁ rfl (.of_eq rfl) hnone (by simp)
  | true =>
    cases hftell : X.io.ftell with
    | false =>
        have hnone : ∀ heap, grant (X.io.fseek && X.io.ftell) ([] ++ heap) = (false, heap) :=
          fun _ => by rw [hfseek, hftell]; rfl
        exact giveUpLoad_ends hfopen howns₁ hp₁ hused₁ rfl (.of_eq rfl) hnone (by simp)
    | true =>
      have hbuffer : ∀ given heap, grant (X.io.fseek && X.io.ftell) ([given] ++ heap) =
          (given, heap) := fun given heap => by rw [hfseek, hftell]; rfl
      refine ends_bind_malloc _ _ (fun m₂ hcells₂ hused₂ => ?_) fun q m₂ hfree₂ hcells₂ hused₂ => ?_
      · exact giveUpLoad_ends hfopen howns₁ hp₁ hused₁ hcells₂ hused₂ (hbuffer false) (by simp)
      obtain ⟨-, hq₂, hkept⟩ := howns₁.given hfree₂ hcells₂
      obtain ⟨hne, hp₂⟩ := hkept p _ hp₁
      have hread : fread (some p) m₂ = (.ok bytes, m₂) := by
        rw [fread, bind_ok (readStream_ok hp₂)]
        rfl
      refine ends_bind_ok hread ?_
      cases hfread : X.io.fread with
      | false =>
          refine ends_bind_ok (free_ok hq₂) (giveUpLoad_ends hfopen howns₁ hp₁ hused₁ ?_
            (hused₂.congr rfl rfl) (hbuffer true) (by simp [hfread]))
          rw [Memory.erase_cells, hcells₂, Function.update_idem, ← hfree₂, Function.update_eq_self]
      | true =>
          have hp₃ : (m₂.set q (.text (bytes.takeWhile (· ≠ 0)))).cells p =
              some (.stream ⟨[], bytes, false⟩) := (Function.update_of_ne hne _ _).trans hp₂
          refine ends_bind_ok (write_ok hq₂ _) (ends_bind_ok (fclose_ok hp₃) (ends_of_ok rfl ?_))
          refine ⟨[true, true], { X.io with fopen := true, malloc := true },
            (hused₁.trans hused₂).congr rfl rfl, resolveLoad_granted hfopen (hbuffer true), ?_⟩
          rw [loadDataFromFile_opened, hfseek, hftell, hfread]
          refine ⟨q, rfl, ?_, ?_⟩
          · rw [← hfree₂, hcells₁, Function.update_of_ne hne.symm]
          · -- the stream is gone, and the buffer holds the text
            rw [Memory.erase_cells, Memory.set_cells, hcells₂, Function.update_idem,
              Function.update_comm hne.symm, hcells₁, Function.update_idem, ← hfree,
              Function.update_eq_self]

/-! ## The saved list -/

theorem fprintf_ok (hp : m.cells p = some (.stream s)) (text : CString) :
    fprintf (some p) text m =
      (.ok (), m.set p (.stream { s with before := s.before ++ text })) := by
  rw [fprintf, bind_ok (readStream_ok hp)]
  exact write_ok hp _

/-- **`save_list_to_file`** closes its stream. -/
theorem saveListToStream_ends {ns : List (Placed P)} (h : Represents frame m.cells ns)
    (hfuel : ns.length < X.machine.fuel) :
    Ends (saveListToStream X (headOf ns)) m
      (fun saved m' => m'.cells = m.cells ∧ ∃ used opened, Answered used m m' ∧
        (∀ heap, grant X.saveOpens (used ++ heap) = (opened, heap)) ∧
        saved = if opened then some (X.reaches (saveNodes (listOf ns))) else none)
      (fun _ _ => False) := by
  refine ends_bind_openStream _ _ (fun used m₁ hcells₁ hused hno => ?_)
    fun hopens p m₁ hfree hcells₁ hused₁ => ?_
  · exact ends_of_ok rfl ⟨hcells₁, used, false, hused, hno, rfl⟩
  obtain ⟨howns₁, hp₁, -⟩ := (owns_nil m.cells).given hfree hcells₁
  refine ends_bind_ok (writeNodes_ok savedNode (h.fresh howns₁) hfuel 1) ?_
  refine ends_bind_ok (fprintf_ok hp₁ _) ?_
  refine ends_bind_ok (fclose_ok (Function.update_self _ _ _)) (ends_of_ok rfl ⟨?_, [true], true,
    hused₁.congr rfl rfl, fun heap => ?_, ?_⟩)
  · exact (howns₁.set List.mem_cons_self _).free.eq_of_nil
  · rw [hopens]
    rfl
  · rw [written_savedNode]
    rfl

/-! ## The run -/

/-- What `RunCommand.main` is given, when the allocator answers this: the answers go to the
capture, to the load, to the parser and to the stream of the saved list. -/
structure Resolved where
  sys : System
  io : LoadOutcomes
  heap : Alloc
  saveOpens : Bool

/-- The captured text as the parser sees it. -/
def textOf (sys : System) : CString := (sys.process pathCmd).output.takeWhile (· ≠ 0)

/-- The outcomes with these answers of the allocator. -/
def Setting.resolve (X : Setting P) (answers : Alloc) : Resolved :=
  let (sys, heap) := resolveSystem X.sys answers
  let (io, heap) := resolveLoad X.io heap
  let (_, rest) := Iface.parseDataBuffer [] (some (textOf sys)) heap
  ⟨sys, io, heap, (grant X.saveOpens rest).1⟩

/-- The list that is parsed. -/
def Resolved.parsed (r : Resolved) : List Node :=
  (Iface.parseDataBuffer [] (some (textOf r.sys)) r.heap).1

/-- What a run says of the two interfaces. -/
def shownOf (l : List Node) : List (Option (CString × CString)) :=
  [str "ens33", str "wlan0"].map fun name => (Iface.listSearch l (some name)).map shownNode

theorem lineCount_le (text : CString) : lineCount (some text) ≤ text.length :=
  Scan.length_tokens_le _ text

/-- The run of `RunCommand.main`, with what reaches the saved list of what was written to it. -/
def Setting.run (X : Setting P) (answers : Alloc) (files : Files) : MainRun :=
  let r := X.resolve answers
  let run := Iface.main r.sys r.io r.heap r.saveOpens files
  if run.replaced then
    { run with
      files := Function.update run.files pathMyIfaceList
        ((run.files pathMyIfaceList).map X.reaches) }
  else run

omit [DecidableEq P] in
/-- The first answers go to the capture. -/
theorem Setting.resolve_sys {used : Alloc} {sys : System}
    (h : ∀ heap, resolveSystem X.sys (used ++ heap) = (sys, heap)) (rest : Alloc) :
    (X.resolve (used ++ rest)).sys = sys := by
  rw [Setting.resolve, h]

omit [DecidableEq P] in
/-- The next ones go to the load, the others to the parser and behind it. -/
theorem Setting.resolve_eq {used used' : Alloc} {sys : System} {io : LoadOutcomes}
    (h : ∀ heap, resolveSystem X.sys (used ++ heap) = (sys, heap))
    (h' : ∀ heap, resolveLoad X.io (used' ++ heap) = (io, heap)) (rest : Alloc) :
    X.resolve (used ++ (used' ++ rest)) = ⟨sys, io, rest,
      (grant X.saveOpens (Iface.parseDataBuffer [] (some (textOf sys)) rest).2).1⟩ := by
  rw [Setting.resolve, h]
  dsimp only
  rw [h']

section Run

variable {answers : Alloc} {files : Files} {r : Resolved}

omit [DecidableEq P] in
theorem Setting.run_of_not_captured (hr : X.resolve answers = r)
    (h : (Iface.runCommandAndSave r.sys pathCmd pathDataFile files).returned = false) :
    X.run answers files =
      ⟨1, false, (Iface.runCommandAndSave r.sys pathCmd pathDataFile files).files⟩ := by
  have hmain : Iface.main r.sys r.io r.heap r.saveOpens files =
      ⟨1, false, (Iface.runCommandAndSave r.sys pathCmd pathDataFile files).files⟩ := by
    apply if_neg
    rw [h]
    exact Bool.false_ne_true
  subst hr
  rw [Setting.run, hmain]
  rfl

omit [DecidableEq P] in
theorem Setting.run_of_not_loaded (hr : X.resolve answers = r)
    (h : (Iface.runCommandAndSave r.sys pathCmd pathDataFile files).returned = true)
    (hload : Iface.loadDataFromFile r.io
      ((Iface.runCommandAndSave r.sys pathCmd pathDataFile files).files pathDataFile) = none) :
    X.run answers files =
      ⟨1, false, (Iface.runCommandAndSave r.sys pathCmd pathDataFile files).files⟩ := by
  have hmain : Iface.main r.sys r.io r.heap r.saveOpens files =
      ⟨1, false, (Iface.runCommandAndSave r.sys pathCmd pathDataFile files).files⟩ := by
    rw [Iface.main, if_pos h, hload]
  subst hr
  rw [Setting.run, hmain]
  rfl

omit [DecidableEq P] in
theorem Setting.run_of_loaded (hr : X.resolve answers = r)
    (h : (Iface.runCommandAndSave r.sys pathCmd pathDataFile files).returned = true)
    (hload : Iface.loadDataFromFile r.io
      ((Iface.runCommandAndSave r.sys pathCmd pathDataFile files).files pathDataFile) =
        some (textOf r.sys)) :
    X.run answers files = ⟨0, r.saveOpens, if r.saveOpens then
      Function.update (Iface.runCommandAndSave r.sys pathCmd pathDataFile files).files
        pathMyIfaceList (some (X.reaches (saveNodes r.parsed)))
      else (Iface.runCommandAndSave r.sys pathCmd pathDataFile files).files⟩ := by
  subst hr
  rw [Setting.run, Iface.main, if_pos h, hload]
  cases (X.resolve answers).saveOpens with
  | false =>
      dsimp only
      rw [Iface.saveListToFile, if_neg Bool.false_ne_true, if_neg Bool.false_ne_true,
        if_neg Bool.false_ne_true, Function.update_eq_self]
  | true =>
      dsimp only
      rw [if_pos rfl, if_pos rfl, Function.update_self, Function.update_idem]
      rfl

omit [DecidableEq P] in
/-- What is captured stands in the file. -/
theorem file_of_captured {sys : System}
    (h : (Iface.runCommandAndSave sys pathCmd pathDataFile files).returned = true) :
    (Iface.runCommandAndSave sys pathCmd pathDataFile files).files pathDataFile =
      some (sys.process pathCmd).output := by
  rw [runCommandAndSave_of_succeeds ((returned_iff _ _ _).mp h)]
  dsimp only
  rw [Function.update_self]

end Run

/-- A run, with the answers of the allocator in it. -/
theorem main_ends (X : Setting P) (files : Files) (m : Memory P (Block P))
    (hfuel : (X.sys.process pathCmd).output.length + 1 < X.machine.fuel) :
    Ends (main X files) m
      (fun r m' => m'.cells = m.cells ∧ ∃ used, Answered used m m' ∧ r.run = X.run used files ∧
        r.found = if r.run.exitCode = 0 then shownOf (X.resolve used).parsed else [])
      (fun _ _ => False) := by
  refine Ends.bind (runCommandAndSave_ends pathCmd pathDataFile files (by omega)) ?_
  rintro capture m₁ ⟨hcells₁, used₁, sys, hused₁, hsys, rfl⟩
  cases hreturned : (Iface.runCommandAndSave sys pathCmd pathDataFile files).returned with
  | false =>
      have hresolve : (X.resolve used₁).sys = sys := by
        have h := Setting.resolve_sys hsys []
        rwa [List.append_nil] at h
      have hrun : X.run used₁ files = _ :=
        Setting.run_of_not_captured rfl (by rw [hresolve]; exact hreturned)
      rw [hresolve] at hrun
      refine ends_of_ok rfl ⟨hcells₁, used₁, hused₁, hrun.symm, ?_⟩
      rw [if_neg Nat.one_ne_zero]
  | true =>
      have hfile := file_of_captured hreturned
      rw [hfile]
      refine Ends.bind (loadDataFromFile_ends _) ?_
      rintro buffer m₂ ⟨used₂, io, hused₂, hio, hloaded⟩
      have hresolve := Setting.resolve_eq (X := X) hsys hio
      cases hload : Iface.loadDataFromFile io (some (sys.process pathCmd).output) with
      | none =>
          rw [hload] at hloaded
          obtain ⟨rfl, hcells₂⟩ := hloaded
          have hrun : X.run (used₁ ++ (used₂ ++ [])) files = _ :=
            Setting.run_of_not_loaded (hresolve []) hreturned (by rw [hfile]; exact hload)
          rw [List.append_nil] at hrun
          refine ends_of_ok rfl ⟨hcells₂.trans hcells₁, _, hused₁.trans hused₂, hrun.symm, ?_⟩
          rw [if_neg Nat.one_ne_zero]
      | some text =>
          have htext : textOf sys = text := (loadDataFromFile_some_iff.mp hload).2
          subst htext
          rw [hload] at hloaded
          obtain ⟨p, rfl, hfree, hcells₂⟩ := hloaded
          have hshort : (textOf sys).length ≤ (X.sys.process pathCmd).output.length := by
            have houtput : sys.process = X.sys.process :=
              (congrArg (fun r : System × Alloc => r.1.process) (hsys [])).symm
            rw [textOf, houtput]
            exact (List.takeWhile_prefix _).length_le
          have hcount := lineCount_le (textOf sys)
          have hp₂ : m₂.cells p = some (.text (textOf sys)) := by rw [hcells₂, Function.update_self]
          have hread : read Block.asText (some p) m₂ = (.ok (textOf sys), m₂) := read_ok hp₂ rfl
          refine ends_bind_ok hread ?_
          -- the list is built beside the buffer, which is freed then
          have hrep₂ : Represents m₂.cells m₂.cells [] :=
            ⟨⟨trivial, fun x hx => by cases hx⟩, owns_nil _⟩
          refine Ends.bind (parseDataBuffer_ends (M := X.machine) hrep₂ (some (textOf sys)) ?_) ?_
          · rw [List.length_nil]
            omega
          rintro head m₃ ⟨used₃, ns, rfl, hrep₃, hlen, hused₃, hparse⟩
          rw [show listOf ([] : List (Placed P)) = [] from rfl] at hparse
          rw [List.length_nil] at hlen
          have hlt : ns.length < X.machine.fuel := by omega
          refine ends_bind_ok (free_ok (hrep₃.other hp₂)) ?_
          have hframe : Function.update m₂.cells p none = m.cells := by
            rw [hcells₂, Function.update_idem, ← hfree, Function.update_eq_self, hcells₁]
          have hrep₄ := hrep₃.release hp₂
          rw [hframe] at hrep₄
          refine Ends.bind (saveListToStream_ends hrep₄ hlt) ?_
          rintro saved m₄ ⟨hcells₄, used₄, opened, hused₄, hopened, rfl⟩
          rw [← hcells₄] at hrep₄
          refine ends_bind_ok (testSearch_ok hrep₄.toHolds hlt _) ?_
          refine ends_bind_ok (testSearch_ok hrep₄.toHolds hlt _) ?_
          obtain ⟨m₅, hdestroy, hcells₅, href₅⟩ := listDestroy_ok hrep₄ hlt
          refine ends_bind_ok hdestroy ?_
          have hused : Answered (used₁ ++ (used₂ ++ (used₃ ++ used₄))) m m₅ :=
            hused₁.trans (hused₂.trans (hused₃.trans (hused₄.congr rfl href₅)))
          have hnil : grant X.saveOpens used₄ = (opened, []) := by
            have h := hopened []
            rwa [List.append_nil] at h
          have hanswers := hresolve (used₃ ++ used₄)
          rw [hparse, hnil] at hanswers
          have hparsed : (Resolved.mk sys io (used₃ ++ used₄) opened).parsed = listOf ns := by
            rw [Resolved.parsed, hparse]
          have hrun : X.run (used₁ ++ (used₂ ++ (used₃ ++ used₄))) files = _ :=
            Setting.run_of_loaded hanswers hreturned (by rw [hfile]; exact hload)
          rw [hparsed] at hrun
          have hfound : shownOf (listOf ns) =
              shownOf (X.resolve (used₁ ++ (used₂ ++ (used₃ ++ used₄)))).parsed := by
            rw [hanswers, hparsed]
          cases opened with
          | false => exact ends_of_ok rfl ⟨hcells₅, _, hused, hrun.symm, hfound⟩
          | true => exact ends_of_ok rfl ⟨hcells₅, _, hused, hrun.symm, hfound⟩

/-- **A run of the interface manager uses memory and streams soundly.**  Whatever the allocator
answers, fresh blocks hold and the other calls do, the run returns with the memory as it was
before: each stream that was opened is closed, once, and each block that was allocated is freed,
once, on every way out of the capture, the load and the save.  It is the run of `RunCommand.main`
with what the allocator answered, call by call, up to what reaches the saved list. -/
theorem interface_process_keeps_memory (X : Setting P) (files : Files) (m : Memory P (Block P))
    (hfuel : (X.sys.process pathCmd).output.length + 1 < X.machine.fuel) :
    ∃ r m', main X files m = (.ok r, m') ∧ m'.cells = m.cells ∧
      ∃ used, Answered used m m' ∧ r.run = X.run used files ∧
        r.found = if r.run.exitCode = 0 then shownOf (X.resolve used).parsed else [] :=
  (main_ends X files m hfuel).exists_ok

/-- A system in which an interface is up, and only a write to the saved list fails. -/
def loopbackUp : Setting ℕ where
  machine := ⟨Allocator.numbered, ⟨some 3, none, none, none, none, none, none⟩, some 7, 40⟩
  junkText := str "junk"
  sys := { noIfconfig with process := fun _ => ⟨str "lo  Link encap:L\n  UP\n", .exited 0⟩ }
  io := ⟨true, true, true, true, true⟩
  saveOpens := true
  saveCut := some 5

theorem loopbackUp_short :
    (loopbackUp.sys.process pathCmd).output.length + 1 < loopbackUp.machine.fuel := by
  decide +kernel

/-- From no files. -/
theorem interface_process_keeps_memory_loopback :
    ∃ r m', main loopbackUp (fun _ => none) ⟨fun _ => none, []⟩ = (.ok r, m') ∧
      m'.cells = fun _ => none := by
  obtain ⟨r, m', hrun, hcells, -⟩ := interface_process_keeps_memory loopbackUp (fun _ => none)
    ⟨fun _ => none, []⟩ loopbackUp_short
  exact ⟨r, m', hrun, hcells⟩

end IfaceMemory
