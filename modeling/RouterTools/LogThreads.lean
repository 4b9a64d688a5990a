/-
# Threads that log

`log_message` prints its record outside the mutex `log_mutex` and writes it inside: between
`fopen` and `fclose` the record goes to the end of the file in as many pieces as the system
likes, and a write that fails loses the rest of it.  The steps of any number of threads are
interleaved here as the scheduler likes, while the configuration stays as it is.

`Sound` is what holds at every moment; `log_threads_records_whole` says it for every reachable
state, and `log_threads_serialise` that without failures the calls are a run of the sequential
logger, in the order in which they gave the mutex back.
-/
import Mathlib.Logic.Relation
import RouterTools.Framing
import RouterTools.LogSwitch

namespace Logger

open CString

variable {τ : Type}

/-! ## The threads -/

/-- A call of `log_message`; `stack` is what the buffer holds at first. -/
structure Request (τ : Type) where
  thread : τ
  stack : Vector UInt8 2048
  message : Message

/-- What a call does with its record: whether `fopen` succeeds, what was written of the record,
and whether a write failed. -/
structure Output where
  logBuffer : List UInt8
  opened : Bool
  written : List UInt8
  failed : Bool

/-- Where a thread is in `log_message`. -/
inductive Place (τ : Type) where
  | idle
  /-- The record is printed and the mutex to be taken. -/
  | ready (req : Request τ) (logBuffer : List UInt8)
  /-- The mutex is taken and the file to be opened. -/
  | locked (req : Request τ) (logBuffer : List UInt8)
  /-- The record is being written; `rest` is still in the stream. -/
  | writing (req : Request τ) (out : Output) (rest : List UInt8)

/-- The mutex is held at this place. -/
def Place.Holds : Place τ → Prop
  | .locked .. => True
  | .writing .. => True
  | _ => False

/-- What is being written. -/
def Place.output : Place τ → List Output
  | .writing _ out _ => [out]
  | _ => []

/-- The call under way. -/
def Place.request : Place τ → List (Request τ)
  | .idle => []
  | .ready req _ => [req]
  | .locked req _ => [req]
  | .writing req _ _ => [req]

/-- The logger, its mutex and its threads, with the calls made so far and those that have
returned, each with what it has written; a call that prints no record has no output.  A call
counts as returned as soon as it has given the mutex back. -/
structure Threads (τ : Type) where
  state : State
  mutex : Option τ
  place : τ → Place τ
  called : List (Request τ)
  returned : List (Request τ × Option Output)

/-- The state after what was written: behind the file, or behind `stderr`. -/
def Output.effect (s : State) (out : Output) : State :=
  if out.opened = true then
    { s with files := Function.update s.files s.config.logFilePath
                        (s.files s.config.logFilePath ++ out.written) }
  else { s with stderr := s.stderr ++ out.written }

/-- One step of one thread. -/
inductive ThreadStep [DecidableEq τ] : Threads τ → Threads τ → Prop
  /-- A call that prints no record returns at once. -/
  | silent {o : Threads τ} (req : Request τ) (hidle : o.place req.thread = .idle)
      (hrecord : logRecord req.stack o.state.config.logLevel req.message = none) :
      ThreadStep o
        { o with called := o.called ++ [req], returned := o.returned ++ [(req, none)] }
  | print {o : Threads τ} (req : Request τ) {logBuffer : List UInt8}
      (hidle : o.place req.thread = .idle)
      (hrecord : logRecord req.stack o.state.config.logLevel req.message = some logBuffer) :
      ThreadStep o
        { o with
          place := Function.update o.place req.thread (.ready req logBuffer)
          called := o.called ++ [req] }
  | lock {o : Threads τ} {t : τ} {req : Request τ} {logBuffer : List UInt8}
      (h : o.place t = .ready req logBuffer) (hfree : o.mutex = none) :
      ThreadStep o
        { o with
          mutex := some t
          place := Function.update o.place t (.locked req logBuffer) }
  | openFile {o : Threads τ} {t : τ} {req : Request τ} {logBuffer : List UInt8} (opened : Bool)
      (h : o.place t = .locked req logBuffer) :
      ThreadStep o
        { o with
          place := Function.update o.place t
            (.writing req ⟨logBuffer, opened, [], false⟩ logBuffer) }
  | write {o : Threads τ} {t : τ} {req : Request τ} {out : Output} (piece : List UInt8)
      {rest : List UInt8} (h : o.place t = .writing req out (piece ++ rest)) :
      ThreadStep o
        { o with
          state := Output.effect o.state { out with written := piece }
          place := Function.update o.place t
            (.writing req { out with written := out.written ++ piece } rest) }
  /-- A write fails, and what is still in the stream is lost. -/
  | fail {o : Threads τ} {t : τ} {req : Request τ} {out : Output} {rest : List UInt8}
      (h : o.place t = .writing req out rest) :
      ThreadStep o
        { o with place := Function.update o.place t (.writing req { out with failed := true } []) }
  /-- The mutex is given back, and the call returns. -/
  | unlock {o : Threads τ} {t : τ} {req : Request τ} {out : Output}
      (h : o.place t = .writing req out []) :
      ThreadStep o
        { o with
          mutex := none
          place := Function.update o.place t .idle
          returned := o.returned ++ [(req, some out)] }

/-- No call has been made. -/
def Threads.init (s₀ : State) : Threads τ := ⟨s₀, none, fun _ => .idle, [], []⟩

/-- What the threads can reach. -/
def Threads.Reachable [DecidableEq τ] (s₀ : State) : Threads τ → Prop :=
  Relation.ReflTransGen ThreadStep (Threads.init s₀)

/-! ## What is written -/

theorem config_effect (s : State) (out : Output) : (Output.effect s out).config = s.config := by
  unfold Output.effect
  split_ifs <;> rfl

/-- One piece after the other. -/
theorem effect_append (s : State) (out : Output) (piece : List UInt8) :
    Output.effect (Output.effect s out) { out with written := piece } =
      Output.effect s { out with written := out.written ++ piece } := by
  unfold Output.effect
  by_cases hopened : out.opened = true
  · simp only [hopened, if_true, Function.update_self, Function.update_idem, List.append_assoc]
  · simp only [hopened, if_false, List.append_assoc, Bool.false_eq_true]

/-- Nothing is written yet. -/
theorem effect_nil (s : State) (out : Output) (h : out.written = []) : Output.effect s out = s := by
  unfold Output.effect
  rw [h, List.append_nil, List.append_nil]
  split_ifs
  · rw [Function.update_eq_self]
  · rfl

/-- The state after the outputs, one after another. -/
def effects (s : State) (outs : List Output) : State := outs.foldl Output.effect s

theorem effects_concat (s : State) (outs : List Output) (out : Output) :
    effects s (outs ++ [out]) = Output.effect (effects s outs) out :=
  List.foldl_concat _ _ _ _

theorem config_effects (s : State) (outs : List Output) : (effects s outs).config = s.config := by
  induction outs generalizing s with
  | nil => rfl
  | cons out outs ih => exact (ih (Output.effect s out)).trans (config_effect s out)

/-! ## What a call does -/

/-- The record is that of the call, what was written is the front of it, and all of it is
written or still to be written unless a write failed. -/
structure Output.Matches (s₀ : State) (req : Request τ) (out : Output) (rest : List UInt8) :
    Prop where
  record : logRecord req.stack s₀.config.logLevel req.message = some out.logBuffer
  front : out.written ++ rest <+: out.logBuffer
  whole : out.failed = false → out.written ++ rest = out.logBuffer

/-- What holds of the thread's place. -/
def Place.Sound (s₀ : State) (t : τ) : Place τ → Prop
  | .idle => True
  | .ready req logBuffer | .locked req logBuffer =>
      req.thread = t ∧ logRecord req.stack s₀.config.logLevel req.message = some logBuffer
  | .writing req out rest => req.thread = t ∧ out.Matches s₀ req rest

/-- What a call that has returned has done. -/
def ReturnedSound (s₀ : State) (d : Request τ × Option Output) : Prop :=
  match d.2 with
  | none => logRecord d.1.stack s₀.config.logLevel d.1.message = none
  | some out => out.Matches s₀ d.1 []

variable {s₀ : State}

/-- A call whose file opens as it does for the others, and whose writes all go through, does
what the sequential logger does. -/
theorem effect_eq_logMessage {openable : CString → Bool} {s : State} {req : Request τ}
    {out : Output} (hmatches : out.Matches s₀ req []) (hconfig : s.config = s₀.config)
    (hopened : out.opened = openable s₀.config.logFilePath) (hfailed : out.failed = false) :
    Output.effect s out = logMessage openable s req.stack req.message := by
  have hwritten : out.written = out.logBuffer := by
    rw [← hmatches.whole hfailed, List.append_nil]
  rw [logMessage, hconfig, hmatches.record, Output.effect, hopened, hwritten, hconfig]

/-- The call of the sequential logger. -/
def Request.call (req : Request τ) : Call := .logMessage req.stack req.message

theorem effects_eq_foldl {openable : CString → Bool} {returned : List (Request τ × Option Output)}
    (hreturned : ∀ d ∈ returned, ReturnedSound s₀ d)
    (hgood : ∀ out ∈ returned.filterMap Prod.snd,
      out.opened = openable s₀.config.logFilePath ∧ out.failed = false)
    {s : State} (hconfig : s.config = s₀.config) :
    effects s (returned.filterMap Prod.snd) =
      (returned.map fun d => d.1.call).foldl (step openable) s := by
  induction returned generalizing s with
  | nil => rfl
  | cons d returned ih =>
      obtain ⟨hd, hrest⟩ := List.forall_mem_cons.mp hreturned
      obtain ⟨req, output⟩ := d
      cases output with
      | none =>
          -- nothing is printed
          have hsame : logMessage openable s req.stack req.message = s := by
            have hrecord : logRecord req.stack s₀.config.logLevel req.message = none := hd
            rw [logMessage, hconfig, hrecord]
          rw [List.map_cons, List.foldl_cons, Request.call, Logger.step, hsame]
          exact ih hrest hgood hconfig
      | some out =>
          have hout := List.forall_mem_cons.mp hgood
          have heffect : Output.effect s out = logMessage openable s req.stack req.message :=
            effect_eq_logMessage hd hconfig hout.1.1 hout.1.2
          rw [List.map_cons, List.foldl_cons, Request.call, Logger.step, ← heffect]
          exact ih hrest hout.2 ((config_effect s out).trans hconfig)

/-- Where the file opens every time, it grows by what is written. -/
theorem files_effects {outs : List Output} (hopened : ∀ out ∈ outs, out.opened = true) (s : State) :
    (effects s outs).files s.config.logFilePath =
      s.files s.config.logFilePath ++ (outs.map Output.written).flatten := by
  induction outs generalizing s with
  | nil => exact (List.append_nil _).symm
  | cons out outs ih =>
      obtain ⟨hout, houts⟩ := List.forall_mem_cons.mp hopened
      have hrest := ih houts (Output.effect s out)
      rw [config_effect] at hrest
      have hfile : (Output.effect s out).files s.config.logFilePath =
          s.files s.config.logFilePath ++ out.written := by
        rw [Output.effect, if_pos hout]
        exact Function.update_self _ _ _
      rw [hfile] at hrest
      rw [List.map_cons, List.flatten_cons, ← List.append_assoc]
      exact hrest

/-- The record of a text of one line. -/
theorem logRecord_line {stack : Vector UInt8 2048} {logLevel : UInt8} {m : Message}
    {logBuffer : List UInt8} (h : logRecord stack logLevel m = some logBuffer)
    (hline : newline ∉ m.text) : logBuffer = m.text.take 2046 ++ [newline] := by
  have hlast : m.text.getLast? ≠ some newline := fun hlast => hline (List.mem_of_getLast? hlast)
  have henabled : m.Enabled logLevel := by
    by_contra hnot
    have hcheck : m.level ≤ 0 ∨ m.level > 3 ∨ m.level > logLevel.toNat := by
      unfold Message.Enabled at hnot
      omega
    rw [logRecord, if_pos hcheck] at h
    cases h
  rw [logRecord_eq stack henabled] at h
  split_ifs at h with hcontent hblank
  · exact absurd hblank.2 hlast
  · rw [← Option.some.inj h, record, dropNewline, if_neg hlast]

/-- Records that were written whole are lines. -/
theorem exists_lines {returned : List (Request τ × Option Output)}
    (hreturned : ∀ d ∈ returned, ReturnedSound s₀ d)
    (hfailed : ∀ out ∈ returned.filterMap Prod.snd, out.failed = false)
    (hlines : ∀ d ∈ returned, newline ∉ d.1.message.text) :
    ∃ lines : List (Frame.Line newline),
      lines.map Subtype.val = (returned.filter fun d => d.2.isSome).map
        (fun d => d.1.message.text.take 2046) ∧
      ((returned.filterMap Prod.snd).map Output.written).flatten =
        lines.flatMap (Frame.line newline).encode := by
  induction returned with
  | nil => exact ⟨[], rfl, rfl⟩
  | cons d returned ih =>
      obtain ⟨hd, hrest⟩ := List.forall_mem_cons.mp hreturned
      obtain ⟨hline, hrestLines⟩ := List.forall_mem_cons.mp hlines
      obtain ⟨req, output⟩ := d
      cases output with
      | none => exact ih hrest hfailed hrestLines
      | some out =>
          have hout := List.forall_mem_cons.mp hfailed
          obtain ⟨lines, htexts, hflatten⟩ := ih hrest hout.2 hrestLines
          have hmatches : out.Matches s₀ req [] := hd
          have hwritten : out.written = req.message.text.take 2046 ++ [newline] := by
            rw [← logRecord_line hmatches.record hline, ← hmatches.whole hout.1, List.append_nil]
          refine ⟨⟨req.message.text.take 2046, fun h => hline (List.mem_of_mem_take h)⟩ :: lines,
            ?_, ?_⟩
          · rw [List.map_cons, htexts]
            rfl
          · show out.written ++ _ = (req.message.text.take 2046 ++ [newline]) ++ _
            rw [hwritten, hflatten]
            rfl

/-! ## The invariant -/

/-- What the holder of the mutex has written so far. -/
def Threads.current (o : Threads τ) : List Output :=
  match o.mutex with
  | none => []
  | some t => (o.place t).output

/-- What the calls that have returned have written, in the order in which they gave the mutex
back. -/
def Threads.outputs (o : Threads τ) : List Output := o.returned.filterMap Prod.snd

/-- **What holds at every moment.**  A thread is in its critical section exactly when it holds
the mutex; on the disk and on `stderr` are the records of the calls that have returned, one
behind the other, and of the call in the critical section what it has written so far; and each
thread has made the calls of it that have returned, in this order, and the one it is in. -/
structure Threads.Sound [DecidableEq τ] (s₀ : State) (o : Threads τ) : Prop where
  holder : ∀ t, (o.place t).Holds ↔ o.mutex = some t
  state : o.state = effects s₀ (o.outputs ++ o.current)
  returned : ∀ d ∈ o.returned, ReturnedSound s₀ d
  places : ∀ t, (o.place t).Sound s₀ t
  calls : ∀ t, o.called.filter (fun req => req.thread = t) =
    (o.returned.map Prod.fst).filter (fun req => req.thread = t) ++ (o.place t).request

variable [DecidableEq τ] {o o' : Threads τ} {t : τ}

theorem Threads.Sound.init (s₀ : State) : (Threads.init s₀ : Threads τ).Sound s₀ where
  holder := fun _ => iff_of_false id fun h => nomatch h
  state := rfl
  returned := fun _ h => nomatch h
  places := fun _ => trivial
  calls := fun _ => rfl

/-- The configuration stays as it is. -/
theorem Threads.Sound.config (h : o.Sound s₀) : o.state.config = s₀.config := by
  rw [h.state, config_effects]

/-- A thread elsewhere is not the holder. -/
theorem Threads.Sound.mutex_ne (h : o.Sound s₀) (ht : ¬ (o.place t).Holds) : o.mutex ≠ some t :=
  mt (h.holder t).mpr ht

/-- What a thread outside does is not written. -/
theorem current_update_outside (ht : o.mutex ≠ some t) (p : Place τ) :
    Threads.current { o with place := Function.update o.place t p } = o.current := by
  unfold Threads.current
  cases hmutex : o.mutex with
  | none => rfl
  | some u =>
      have hne : u ≠ t := by
        rintro rfl
        exact ht hmutex
      exact congrArg Place.output (Function.update_of_ne hne _ _)

/-- The places after one thread has moved. -/
theorem places_update (h : o.Sound s₀) {p : Place τ} (hp : p.Sound s₀ t) (u : τ) :
    (Function.update o.place t p u).Sound s₀ u := by
  by_cases hu : u = t
  · subst hu
    rw [Function.update_self]
    exact hp
  · rw [Function.update_of_ne hu]
    exact h.places u

/-- The calls under way after one thread has moved without changing its own. -/
theorem request_update {p : Place τ} (hp : p.request = (o.place t).request) (u : τ) :
    (Function.update o.place t p u).request = (o.place u).request := by
  by_cases hu : u = t
  · subst hu
    rw [Function.update_self, hp]
  · rw [Function.update_of_ne hu]

/-- **The holder moves on** in its critical section. -/
theorem Threads.Sound.advance (h : o.Sound s₀) (ht : o.mutex = some t) {s : State} {p : Place τ}
    (hholds : p.Holds) (hrequest : p.request = (o.place t).request) (hp : p.Sound s₀ t)
    (hstate : s = effects s₀ (o.outputs ++ p.output)) :
    Threads.Sound s₀ { o with state := s, place := Function.update o.place t p } where
  holder := fun u => by
    by_cases hu : u = t
    · subst hu
      dsimp only
      rw [Function.update_self]
      exact iff_of_true hholds ht
    · dsimp only
      rw [Function.update_of_ne hu]
      exact h.holder u
  state := by
    have hcurrent : Threads.current { o with state := s, place := Function.update o.place t p } =
        p.output := by
      simp only [Threads.current, ht, Function.update_self]
    rw [hcurrent]
    exact hstate
  returned := h.returned
  places := places_update h hp
  calls := fun u => by
    dsimp only
    rw [request_update hrequest u]
    exact h.calls u

/-- A call that is made is the last one of its thread. -/
theorem filter_concat (reqs : List (Request τ)) (req : Request τ) (t : τ) :
    (reqs ++ [req]).filter (fun r => r.thread = t) =
      reqs.filter (fun r => r.thread = t) ++ if req.thread = t then [req] else [] := by
  rw [List.filter_append, List.filter_singleton]
  by_cases ht : req.thread = t <;> simp [ht]

/-! ## The steps -/

theorem Threads.Sound.silent (h : o.Sound s₀) (req : Request τ)
    (hidle : o.place req.thread = .idle)
    (hrecord : logRecord req.stack o.state.config.logLevel req.message = none) :
    Threads.Sound s₀
      { o with called := o.called ++ [req], returned := o.returned ++ [(req, none)] } where
  holder := h.holder
  state := by
    have houtputs : Threads.outputs
        { o with called := o.called ++ [req], returned := o.returned ++ [(req, none)] } =
          o.outputs := by
      rw [Threads.outputs, List.filterMap_append]
      exact List.append_nil _
    rw [houtputs]
    exact h.state
  returned := by
    intro d hd
    rcases List.mem_append.mp hd with hd | hd
    · exact h.returned d hd
    · rw [List.mem_singleton.mp hd]
      rw [h.config] at hrecord
      exact hrecord
  places := h.places
  calls := fun t => by
    dsimp only
    rw [List.map_append, List.map_singleton, filter_concat, filter_concat, h.calls t]
    by_cases ht : req.thread = t
    · subst ht
      rw [hidle]
      simp [Place.request]
    · rw [if_neg ht, List.append_nil, List.append_nil]

theorem Threads.Sound.print (h : o.Sound s₀) (req : Request τ) {logBuffer : List UInt8}
    (hidle : o.place req.thread = .idle)
    (hrecord : logRecord req.stack o.state.config.logLevel req.message = some logBuffer) :
    Threads.Sound s₀
      { o with
        place := Function.update o.place req.thread (.ready req logBuffer)
        called := o.called ++ [req] } := by
  rw [h.config] at hrecord
  have hout : o.mutex ≠ some req.thread := h.mutex_ne (by rw [hidle]; exact id)
  constructor
  · intro t
    by_cases ht : t = req.thread
    · subst ht
      dsimp only
      rw [Function.update_self]
      exact iff_of_false id hout
    · dsimp only
      rw [Function.update_of_ne ht]
      exact h.holder t
  · have hcurrent := current_update_outside hout (.ready req logBuffer)
    exact h.state.trans (congrArg (fun outs => effects s₀ (o.outputs ++ outs)) hcurrent.symm)
  · exact h.returned
  · exact places_update h ⟨rfl, hrecord⟩
  · intro t
    dsimp only
    rw [filter_concat, h.calls t]
    by_cases ht : req.thread = t
    · subst ht
      rw [Function.update_self, hidle]
      simp [Place.request]
    · rw [if_neg ht, Function.update_of_ne (Ne.symm ht), List.append_nil]

theorem Threads.Sound.lock (h : o.Sound s₀) {req : Request τ} {logBuffer : List UInt8}
    (ht : o.place t = .ready req logBuffer) (hfree : o.mutex = none) :
    Threads.Sound s₀
      { o with mutex := some t, place := Function.update o.place t (.locked req logBuffer) } := by
  have hplace := h.places t
  rw [ht] at hplace
  constructor
  · intro u
    by_cases hu : u = t
    · subst hu
      dsimp only
      rw [Function.update_self]
      exact iff_of_true trivial rfl
    · dsimp only
      rw [Function.update_of_ne hu]
      refine iff_of_false (fun hholds => ?_) fun heq => hu (Option.some.inj heq).symm
      have hmutex := (h.holder u).mp hholds
      rw [hfree] at hmutex
      cases hmutex
  · have hbefore : o.current = [] := by rw [Threads.current, hfree]
    have hafter : Threads.current { o with
        mutex := some t, place := Function.update o.place t (.locked req logBuffer) } = [] := by
      rw [Threads.current]
      dsimp only
      rw [Function.update_self]
      rfl
    rw [hafter, ← hbefore]
    exact h.state
  · exact h.returned
  · exact places_update h hplace
  · intro u
    have hrequest : (Place.locked req logBuffer).request = (o.place t).request := by
      rw [ht]
      rfl
    dsimp only
    rw [request_update hrequest u]
    exact h.calls u

theorem Threads.Sound.openFile (h : o.Sound s₀) {req : Request τ} {logBuffer : List UInt8}
    (opened : Bool) (ht : o.place t = .locked req logBuffer) :
    Threads.Sound s₀
      { o with
        place := Function.update o.place t
          (.writing req ⟨logBuffer, opened, [], false⟩ logBuffer) } := by
  have hmutex : o.mutex = some t := (h.holder t).mp (by rw [ht]; trivial)
  obtain ⟨hthread, hrecord⟩ : req.thread = t ∧ _ := by
    have hplace := h.places t
    rwa [ht] at hplace
  refine h.advance hmutex trivial (by rw [ht]; rfl)
    ⟨hthread, hrecord, List.prefix_refl _, fun _ => rfl⟩ ?_
  have hcurrent : o.current = [] := by
    rw [Threads.current, hmutex]
    dsimp only
    rw [ht]
    rfl
  rw [Place.output, effects_concat, effect_nil _ _ rfl, h.state, hcurrent, List.append_nil]

/-- The holder is writing. -/
theorem Threads.Sound.writing (h : o.Sound s₀) {req : Request τ} {out : Output}
    {rest : List UInt8} (ht : o.place t = .writing req out rest) :
    o.mutex = some t ∧ req.thread = t ∧ out.Matches s₀ req rest ∧
      o.state = Output.effect (effects s₀ o.outputs) out := by
  have hmutex : o.mutex = some t := (h.holder t).mp (by rw [ht]; trivial)
  obtain ⟨hthread, hmatches⟩ : req.thread = t ∧ out.Matches s₀ req rest := by
    have hplace := h.places t
    rwa [ht] at hplace
  have hcurrent : o.current = [out] := by
    rw [Threads.current, hmutex]
    dsimp only
    rw [ht]
    rfl
  refine ⟨hmutex, hthread, hmatches, ?_⟩
  rw [h.state, hcurrent, effects_concat]

theorem Threads.Sound.write (h : o.Sound s₀) {req : Request τ} {out : Output}
    {piece rest : List UInt8} (ht : o.place t = .writing req out (piece ++ rest)) :
    Threads.Sound s₀
      { o with
        state := Output.effect o.state { out with written := piece }
        place := Function.update o.place t
          (.writing req { out with written := out.written ++ piece } rest) } := by
  obtain ⟨hmutex, hthread, ⟨hrecord, hfront, hwhole⟩, hstate⟩ := h.writing ht
  rw [← List.append_assoc] at hfront hwhole
  refine h.advance hmutex trivial (by rw [ht]; rfl) ⟨hthread, hrecord, hfront, hwhole⟩ ?_
  rw [hstate, effect_append, Place.output, effects_concat]

theorem Threads.Sound.fail (h : o.Sound s₀) {req : Request τ} {out : Output}
    {rest : List UInt8} (ht : o.place t = .writing req out rest) :
    Threads.Sound s₀
      { o with place := Function.update o.place t
                 (.writing req { out with failed := true } []) } := by
  obtain ⟨hmutex, hthread, ⟨hrecord, hfront, -⟩, hstate⟩ := h.writing ht
  refine h.advance hmutex trivial (by rw [ht]; rfl) ⟨hthread, hrecord, ?_, fun h => nomatch h⟩ ?_
  · rw [List.append_nil]
    exact (List.prefix_append _ _).trans hfront
  · rw [Place.output, effects_concat, hstate]
    rfl

theorem Threads.Sound.unlock (h : o.Sound s₀) {req : Request τ} {out : Output}
    (ht : o.place t = .writing req out []) :
    Threads.Sound s₀
      { o with
        mutex := none
        place := Function.update o.place t .idle
        returned := o.returned ++ [(req, some out)] } := by
  obtain ⟨hmutex, rfl, hmatches, hstate⟩ := h.writing ht
  constructor
  · intro u
    refine iff_of_false (fun hholds => ?_) fun heq => nomatch heq
    by_cases hu : u = req.thread
    · subst hu
      dsimp only at hholds
      rw [Function.update_self] at hholds
      exact hholds
    · dsimp only at hholds
      rw [Function.update_of_ne hu] at hholds
      have hother := (h.holder u).mp hholds
      rw [hmutex] at hother
      exact hu (Option.some.inj hother).symm
  · have houtputs : Threads.outputs
        { o with
          mutex := none
          place := Function.update o.place req.thread .idle
          returned := o.returned ++ [(req, some out)] } = o.outputs ++ [out] := by
      rw [Threads.outputs, List.filterMap_append]
      rfl
    rw [houtputs, Threads.current, List.append_nil, effects_concat]
    exact hstate
  · intro d hd
    rcases List.mem_append.mp hd with hd | hd
    · exact h.returned d hd
    · rw [List.mem_singleton.mp hd]
      exact hmatches
  · exact places_update h trivial
  · intro u
    have hcalls := h.calls u
    dsimp only
    rw [List.map_append, List.map_singleton, filter_concat]
    by_cases hu : req.thread = u
    · subst hu
      rw [Function.update_self, if_pos rfl, hcalls, ht]
      simp [Place.request]
    · rw [if_neg hu, Function.update_of_ne (Ne.symm hu), List.append_nil]
      exact hcalls

/-- **One step.** -/
theorem Threads.Sound.step (h : o.Sound s₀) (hstep : ThreadStep o o') : o'.Sound s₀ := by
  cases hstep with
  | silent req hidle hrecord => exact h.silent req hidle hrecord
  | print req hidle hrecord => exact h.print req hidle hrecord
  | lock ht hfree => exact h.lock ht hfree
  | openFile opened ht => exact h.openFile opened ht
  | write piece ht => exact h.write ht
  | fail ht => exact h.fail ht
  | unlock ht => exact h.unlock ht

theorem Threads.Reachable.sound (h : o.Reachable s₀) : o.Sound s₀ := by
  induction h with
  | refl => exact .init s₀
  | tail _ hstep ih => exact ih.step hstep

/-- **Records stay whole and apart** whatever the scheduler and the file system do: in every
state the threads can reach at most one of them is in its critical section, the file and
`stderr` hold the records of the calls that have returned one behind the other, each whole
unless a write of it failed, and no call is lost, made twice or overtaken by a later one of its
thread. -/
theorem log_threads_records_whole (h : o.Reachable s₀) : o.Sound s₀ :=
  h.sound

/-! ## The calls as a sequence -/

/-- **Calls serialise.**  Whenever the mutex is free, and the file has opened or not as it does
and no write has failed, the logger is in the state in which the calls that have returned leave
it when they are made one after the other, in the order in which they gave the mutex back. -/
theorem log_threads_serialise {openable : CString → Bool} (h : o.Reachable s₀)
    (hfree : o.mutex = none) (hgood : ∀ out ∈ o.outputs,
      out.opened = openable s₀.config.logFilePath ∧ out.failed = false) :
    o.state = (o.returned.map fun d => d.1.call).foldl (step openable) s₀ := by
  have hsound := h.sound
  have hcurrent : o.current = [] := by rw [Threads.current, hfree]
  rw [hsound.state, hcurrent, List.append_nil]
  exact effects_eq_foldl hsound.returned hgood rfl

/-- **Every line of the file is one message.**  Where the file was empty, every `fopen` and
every write has succeeded and no message has a newline in it, the file is read back line by line
as the messages that were let through, each cut at 2046 bytes, in the order in which their calls
gave the mutex back. -/
theorem log_threads_file_decodes (h : o.Reachable s₀) (hfree : o.mutex = none)
    (hempty : s₀.files s₀.config.logFilePath = [])
    (hgood : ∀ out ∈ o.outputs, out.opened = true ∧ out.failed = false)
    (hlines : ∀ d ∈ o.returned, newline ∉ d.1.message.text) :
    ((Frame.line newline).decodeAll (o.state.files s₀.config.logFilePath)).map
        (List.map Subtype.val) =
      some ((o.returned.filter fun d => d.2.isSome).map fun d => d.1.message.text.take 2046) := by
  have hsound := h.sound
  have hcurrent : o.current = [] := by rw [Threads.current, hfree]
  obtain ⟨lines, htexts, hflatten⟩ :=
    exists_lines hsound.returned (fun out hout => (hgood out hout).2) hlines
  have hne : ∀ line : Frame.Line newline, (Frame.line newline).encode line ≠ [] := fun line =>
    List.append_ne_nil_of_right_ne_nil _ (List.cons_ne_nil _ _)
  have hfile : o.state.files s₀.config.logFilePath = lines.flatMap (Frame.line newline).encode := by
    rw [hsound.state, hcurrent, List.append_nil,
      files_effects (fun out hout => (hgood out hout).1), hempty, List.nil_append]
    exact hflatten
  rw [hfile, Frame.decodeAll_flatMap hne, Option.map_some, htexts]

/-! ## No thread is stuck -/

/-- What the threads can come to. -/
def Threads.Leads (o o' : Threads τ) : Prop := Relation.ReflTransGen ThreadStep o o'

/-- A thread that is writing can write the rest and give the mutex back. -/
theorem leads_of_writing {req : Request τ} {out : Output} {rest : List UInt8}
    (ht : o.place t = .writing req out rest) :
    ∃ o', o.Leads o' ∧ o'.mutex = none ∧ o'.called = o.called ∧
      o'.place = Function.update o.place t .idle ∧
      o'.returned = o.returned ++ [(req, some { out with written := out.written ++ rest })] := by
  rw [← List.append_nil rest] at ht
  have hwritten := ThreadStep.write rest ht
  refine ⟨_, (Relation.ReflTransGen.single hwritten).tail (.unlock (Function.update_self _ _ _)),
    rfl, rfl, ?_, rfl⟩
  exact Function.update_idem _ _ _

/-- A thread that has the mutex can write its record and give the mutex back. -/
theorem leads_of_locked {req : Request τ} {logBuffer : List UInt8}
    (ht : o.place t = .locked req logBuffer) :
    ∃ o', o.Leads o' ∧ o'.mutex = none ∧ o'.called = o.called ∧
      o'.place = Function.update o.place t .idle ∧
      o'.returned = o.returned ++ [(req, some ⟨logBuffer, true, logBuffer, false⟩)] := by
  obtain ⟨o', hleads, hmutex, hcalled, hplace, hreturned⟩ := leads_of_writing
    (o := { o with
            place := Function.update o.place t
              (.writing req ⟨logBuffer, true, [], false⟩ logBuffer) }) (Function.update_self _ _ _)
  refine ⟨o', (Relation.ReflTransGen.single (.openFile true ht)).trans hleads, hmutex, hcalled, ?_,
    hreturned⟩
  rw [hplace]
  exact Function.update_idem _ _ _

/-- The holder can give the mutex back, whoever it is, and the others stay where they are. -/
theorem leads_to_free (h : o.Sound s₀) :
    ∃ o', o.Leads o' ∧ o'.mutex = none ∧ o'.called = o.called ∧
      ∀ u, ¬ (o.place u).Holds → o'.place u = o.place u := by
  cases hmutex : o.mutex with
  | none => exact ⟨o, .refl, hmutex, rfl, fun _ _ => rfl⟩
  | some t =>
      have hholds : (o.place t).Holds := (h.holder t).mpr hmutex
      have hothers : ∀ u, ¬ (o.place u).Holds → Function.update o.place t .idle u = o.place u := by
        intro u hu
        apply Function.update_of_ne
        rintro rfl
        exact hu hholds
      cases ht : o.place t with
      | idle =>
          rw [ht] at hholds
          exact hholds.elim
      | ready req logBuffer =>
          rw [ht] at hholds
          exact hholds.elim
      | locked req logBuffer =>
          obtain ⟨o', hleads, hfree, hcalled, hplace, -⟩ := leads_of_locked ht
          exact ⟨o', hleads, hfree, hcalled, fun u hu => by rw [hplace, hothers u hu]⟩
      | writing req out rest =>
          obtain ⟨o', hleads, hfree, hcalled, hplace, -⟩ := leads_of_writing ht
          exact ⟨o', hleads, hfree, hcalled, fun u hu => by rw [hplace, hothers u hu]⟩

/-- **No thread is stuck**: from every reachable state every thread can come back to its caller
without a further call of anyone, and then all its calls have returned. -/
theorem log_threads_can_return (h : o.Reachable s₀) (t : τ) :
    ∃ o', o.Leads o' ∧ o'.place t = .idle ∧ o'.called = o.called ∧
      (o'.returned.map Prod.fst).filter (fun req => req.thread = t) =
        o.called.filter (fun req => req.thread = t) := by
  have hsound := h.sound
  obtain ⟨o', hleads, hidle, hcalled⟩ :
      ∃ o', o.Leads o' ∧ o'.place t = .idle ∧ o'.called = o.called := by
    cases ht : o.place t with
    | idle => exact ⟨o, .refl, ht, rfl⟩
    | ready req logBuffer =>
        obtain ⟨o₁, hleads₁, hfree₁, hcalled₁, hplace₁⟩ := leads_to_free hsound
        have ht₁ : o₁.place t = .ready req logBuffer := by
          rw [hplace₁ t (by rw [ht]; exact id), ht]
        obtain ⟨o₂, hleads₂, -, hcalled₂, hplace₂, -⟩ := leads_of_locked
          (o := { o₁ with
                  mutex := some t, place := Function.update o₁.place t (.locked req logBuffer) })
          (Function.update_self _ _ _)
        refine ⟨o₂, (hleads₁.tail (.lock ht₁ hfree₁)).trans hleads₂, ?_, hcalled₂.trans hcalled₁⟩
        rw [hplace₂, Function.update_self]
    | locked req logBuffer =>
        obtain ⟨o', hleads, -, hcalled, hplace, -⟩ := leads_of_locked ht
        exact ⟨o', hleads, by rw [hplace, Function.update_self], hcalled⟩
    | writing req out rest =>
        obtain ⟨o', hleads, -, hcalled, hplace, -⟩ := leads_of_writing ht
        exact ⟨o', hleads, by rw [hplace, Function.update_self], hcalled⟩
  refine ⟨o', hleads, hidle, hcalled, ?_⟩
  have hreachable : Threads.Reachable s₀ o' := h.trans hleads
  have hcalls := hreachable.sound.calls t
  rw [hidle, hcalled] at hcalls
  rw [hcalls]
  exact (List.append_nil _).symm

/-! ## Two threads -/

/-- A message of one line. -/
def diskFull : Message := errorMessage (str "disk full") (by decide)

theorem logRecord_diskFull (stack : Vector UInt8 2048) :
    logRecord stack 3 diskFull = some (record diskFull.text) := by
  rw [logRecord_eq stack (by decide), if_pos (by decide), if_neg (by decide)]

/-- A thread logs the message. -/
def diskFullOf (t : ℕ) : Request ℕ := ⟨t, Vector.replicate 2048 0, diskFull⟩

/-- Its record, written whole. -/
def diskFullOutput : Output := ⟨record diskFull.text, true, record diskFull.text, false⟩

/-- Both threads have printed their record; the second one has taken the mutex, and the first
one waits for it. -/
def secondInside : Threads ℕ where
  state := initialState
  mutex := some 1
  place := Function.update
    (Function.update (fun _ => .idle) 0 (.ready (diskFullOf 0) (record diskFull.text))) 1
    (.locked (diskFullOf 1) (record diskFull.text))
  called := [diskFullOf 0, diskFullOf 1]
  returned := []

theorem secondInside_reachable : secondInside.Reachable initialState := by
  let logBuffer := record diskFull.text
  let place₁ : ℕ → Place ℕ := Function.update (fun _ => .idle) 0 (.ready (diskFullOf 0) logBuffer)
  let place₂ : ℕ → Place ℕ := Function.update place₁ 1 (.ready (diskFullOf 1) logBuffer)
  let o₁ : Threads ℕ := ⟨initialState, none, place₁, [diskFullOf 0], []⟩
  let o₂ : Threads ℕ := ⟨initialState, none, place₂, [diskFullOf 0, diskFullOf 1], []⟩
  have h₁ : ThreadStep (Threads.init initialState) o₁ :=
    .print (diskFullOf 0) rfl (logRecord_diskFull _)
  have h₂ : ThreadStep o₁ o₂ := .print (diskFullOf 1) rfl (logRecord_diskFull _)
  have hready₂ : o₂.place 1 = .ready (diskFullOf 1) logBuffer := rfl
  have h₃ := ThreadStep.lock hready₂ rfl
  rw [Function.update_idem] at h₃
  exact .tail (.tail (.single h₁) h₂) h₃

/-- Both return, the second one first. -/
theorem twoThreads_reachable :
    ∃ o : Threads ℕ, o.Reachable initialState ∧ o.mutex = none ∧
      o.called = [diskFullOf 0, diskFullOf 1] ∧
      o.returned = [(diskFullOf 1, some diskFullOutput), (diskFullOf 0, some diskFullOutput)] := by
  obtain ⟨o₁, h₁, hmutex₁, hcalled₁, hplace₁, hreturned₁⟩ := leads_of_locked
    (show secondInside.place 1 = .locked (diskFullOf 1) _ from rfl)
  have hready₁ : o₁.place 0 = .ready (diskFullOf 0) (record diskFull.text) := by
    rw [hplace₁]
    rfl
  have h₂ := ThreadStep.lock hready₁ hmutex₁
  obtain ⟨o₃, h₃, hmutex₃, hcalled₃, -, hreturned₃⟩ := leads_of_locked
    (o := { o₁ with
            mutex := some 0
            place := Function.update o₁.place 0
              (.locked (diskFullOf 0) (record diskFull.text)) })
    (Function.update_self _ _ _)
  refine ⟨o₃, ?_, hmutex₃, hcalled₃.trans hcalled₁, ?_⟩
  · have hfirst : Threads.Reachable initialState o₁ := secondInside_reachable.trans h₁
    exact Relation.ReflTransGen.trans (.tail hfirst h₂) h₃
  · rw [hreturned₃, hreturned₁]
    rfl

/-- Both records are in the file, whole. -/
theorem log_threads_records_whole_two_threads :
    ∃ o : Threads ℕ, o.Sound initialState ∧ o.called = [diskFullOf 0, diskFullOf 1] := by
  obtain ⟨o, ho, -, hcalled, -⟩ := twoThreads_reachable
  exact ⟨o, log_threads_records_whole ho, hcalled⟩

/-- The second thread came first. -/
theorem log_threads_serialise_two_threads :
    ∃ o : Threads ℕ, o.Reachable initialState ∧
      o.state = [(diskFullOf 1).call, (diskFullOf 0).call].foldl (step fun _ => true)
        initialState := by
  obtain ⟨o, ho, hmutex, -, hreturned⟩ := twoThreads_reachable
  have hgood : ∀ out ∈ o.outputs, out.opened = true ∧ out.failed = false := by
    rw [Threads.outputs, hreturned]
    decide
  have hstate : o.state = (o.returned.map fun d => d.1.call).foldl (step fun _ => true)
      initialState := log_threads_serialise ho hmutex hgood
  rw [hreturned] at hstate
  exact ⟨o, ho, hstate⟩

/-- Two lines. -/
theorem log_threads_file_decodes_two_threads :
    ∃ o : Threads ℕ, o.Reachable initialState ∧
      ((Frame.line newline).decodeAll (o.state.files (str "application.log"))).map
        (List.map Subtype.val) = some [diskFull.text, diskFull.text] := by
  obtain ⟨o, ho, hmutex, -, hreturned⟩ := twoThreads_reachable
  have hgood : ∀ out ∈ o.outputs, out.opened = true ∧ out.failed = false := by
    rw [Threads.outputs, hreturned]
    decide
  have hlines : ∀ d ∈ o.returned, newline ∉ d.1.message.text := by
    rw [hreturned]
    decide
  have hdecode := log_threads_file_decodes ho hmutex rfl hgood hlines
  rw [hreturned] at hdecode
  exact ⟨o, ho, hdecode⟩

/-- While the second thread is inside, the first one waits; it can return. -/
theorem log_threads_can_return_two_threads :
    ∃ o : Threads ℕ, secondInside.Leads o ∧ o.place 0 = .idle ∧
      (o.returned.map Prod.fst).filter (fun req => req.thread = 0) = [diskFullOf 0] := by
  obtain ⟨o, hleads, hidle, -, hreturned⟩ := log_threads_can_return secondInside_reachable 0
  exact ⟨o, hleads, hidle, hreturned⟩

end Logger
