/-
# The file of the LAN options

`show_lan_config` writes an option as `name = value`, one line each.  Names have no space, so
the file can be read back (`decodeLan_lanText`), unless a value has a newline in it.  What is
read back after a run of the configuration program in which every call of the library succeeded
is what the program has configured, however often it is run again and whatever fails then
(`main_app_shows_configured`).
-/
import RouterTools.Framing
import RouterTools.MainApp

namespace ShowLan

open CString

variable {P : Type*}

/-! ## The format -/

/-- `name = value`. -/
def optionFrame : Frame UInt8 (Frame.Line space × Frame.Line newline) :=
  (Frame.line space).pair ((Frame.line newline).labelled (str "= "))

/-- Reading the file. -/
def decodeLan (file : CString) : Option (List (CString × CString)) :=
  if str "[interface.lan]\n" <+: file then
    (optionFrame.decodeAll (file.drop (str "[interface.lan]\n").length)).map fun lines =>
      lines.map fun x => (x.1.1, x.2.1)
  else none

/-- The options whose value is shown. -/
def shownOptions (sLan : UciSection P) : List (CString × CString) :=
  sLan.options.toList.filterMap fun opt => (shownValue opt.v).map fun value => (opt.name, value)

/-- No space is in a name and no newline in a value. -/
def Printable (sLan : UciSection P) : Prop :=
  ∀ x ∈ shownOptions sLan, space ∉ x.1 ∧ newline ∉ x.2

theorem encode_optionFrame (x : Frame.Line space × Frame.Line newline) :
    optionFrame.encode x = optionLine x.1.1 x.2.1 := by
  have hequals : str " = " = space :: str "= " := by decide
  have hnewline : str "\n" = [newline] := by decide
  rw [optionFrame, Frame.encode_pair, Frame.encode_labelled, Frame.encode_line, Frame.encode_line,
    optionLine, hequals, hnewline]
  simp only [List.append_assoc, List.cons_append, List.nil_append]

theorem lanText_eq (sLan : UciSection P) :
    lanText sLan = str "[interface.lan]\n" ++
      (shownOptions sLan).flatMap fun x => optionLine x.1 x.2 := by
  rw [lanText, shownOptions]
  congr 1
  induction sLan.options.toList with
  | nil => rfl
  | cons opt options ih =>
      rw [List.flatMap_cons, List.filterMap_cons, ih, optionText]
      cases shownValue opt.v with
      | none => rfl
      | some value => rfl

/-- **The file is read back.** -/
theorem decodeLan_lanText {sLan : UciSection P} (h : Printable sLan) :
    decodeLan (lanText sLan) = some (shownOptions sLan) := by
  -- the options are values of the frame
  obtain ⟨lines, hlines⟩ : ∃ lines : List (Frame.Line space × Frame.Line newline),
      (lines.map fun x => (x.1.1, x.2.1)) = shownOptions sLan := by
    refine ⟨(shownOptions sLan).attach.map fun x =>
      (⟨x.1.1, (h x.1 x.2).1⟩, ⟨x.1.2, (h x.1 x.2).2⟩), ?_⟩
    rw [List.map_map]
    exact List.attach_map_subtype_val _
  have hne : ∀ x, optionFrame.encode x ≠ [] := by
    intro x hnil
    rw [encode_optionFrame, optionLine] at hnil
    exact List.append_ne_nil_of_right_ne_nil _ (by decide) hnil
  have htext : ((shownOptions sLan).flatMap fun x => optionLine x.1 x.2) =
      lines.flatMap optionFrame.encode := by
    rw [← hlines, List.flatMap_map]
    congr 1
    funext x
    exact (encode_optionFrame x).symm
  rw [decodeLan, lanText_eq, if_pos (List.prefix_append _ _), List.drop_left, htext,
    Frame.decodeAll_flatMap hne, Option.map_some, hlines]

end ShowLan

namespace MainApp

open CString
open Uci UciSetters

variable {P : Type} [DecidableEq P]

/-! ## What a configuration leaves to read -/

/-- **A configuration whose calls all succeed** leaves the package `network` with the edits of
its first step. -/
theorem Configured.network {s : Settings} {system : CString → ℤ} {w : World} {r : World × Report}
    (h : Configured s system w r) (hcalls : w.CallsSucceed s.uciCalls) (key : Key) :
    effective r.1 (str "network") key =
      (w.load (str "network")).contents.fold (cutEdits s.lanUpdates) key := by
  cases h with
  | lanFailed hnot => exact absurd hcalls hnot
  | dhcpFailed hnot => exact absurd hcalls hnot
  | @applied w₁ w₂ _ hlan hdhcp =>
      -- the second step is about another package
      have hother := (Moved.committed hdhcp).other (by decide : str "network" ≠ str "dhcp")
      rw [effective_congr hother.1 hother.2, effective_committed hlan]

/-- The options of the LAN read as they are configured. -/
def LanConfigured (w : World) : Prop :=
  ∀ update ∈ settings.lanUpdates, effective w update.1.packageName update.1.key = update.2

/-- All options of the LAN are set. -/
theorem lanUpdates_some : ∀ update ∈ settings.lanUpdates, ∃ value, update.2 = some value := by
  intro update hmem
  have hall : ∀ update ∈ settings.lanUpdates, update.2.isSome := by decide
  exact Option.isSome_iff_exists.mp (hall update hmem)

theorem Configured.lanConfigured {system : CString → ℤ} {w : World} {r : World × Report}
    (h : Configured settings system w r) (hcalls : w.CallsSucceed settings.uciCalls) :
    LanConfigured r.1 := by
  intro update hmem
  obtain ⟨value, hvalue⟩ := lanUpdates_some update hmem
  have hin : InPackage (str "network") settings.lanUpdates := inPackage_lan _ _
  have hfits : Fits settings.lanUpdates := fun update hmem =>
    settings_fit update (List.mem_append_left _ hmem)
  have hedit : cutEdit update.1 value ∈ cutEdits settings.lanUpdates :=
    mem_cutEdits.mpr ⟨update, hmem, value, hvalue, rfl⟩
  have hfold := fold_of_mem ((lanKeys_nodup settings).sublist (cutEdits_keys_sublist _)) hedit
    (w.load (str "network")).contents
  rw [cutEdit_of_fits hfits hmem hvalue] at hfold
  rw [(hin update hmem).1, h.network hcalls, hvalue]
  exact hfold

/-- **Once configured, always configured**, whatever fails later. -/
theorem LanConfigured.step {fuel : ℕ} {env : Environment P} {w w' : World} {run : MainRun}
    (h : LanConfigured w) (hstep : step fuel w env = some (w', run)) : LanConfigured w' := by
  obtain ⟨rfl, -⟩ := main_eq_some hstep
  have hdrift := ((configure_cases settings env.system w).sound settings_fit (.refl _ _)).drift
  intro update hmem
  obtain ⟨value, hvalue⟩ := lanUpdates_some update hmem
  rcases hdrift.edited update (List.mem_append_left _ hmem) value hvalue with hsame | hset
  · rw [hsame]
    exact h update hmem
  · rw [hset, hvalue]

/-! ## What the next run shows -/

/-- What the library is to load: a package with the section of the LAN, whose options are those
of the store. -/
structure Loads (pkg : ShowLan.UciPackage P) (contents : Contents)
    (sLan : ShowLan.UciSection P) : Prop where
  found : pkg.sections.toList.find? ShowLan.isLan = some sLan
  printable : ShowLan.Printable sLan
  options : ∀ name value,
    contents (str "lan", name) = some value ↔ (name, value) ∈ ShowLan.shownOptions sLan

/-- **What was configured is what is shown.**  After a run in which every call of the library
has succeeded, and any further runs, whatever fails in them, a run that gets to write `lan.txt`
shows the configured address and netmask there, and no others. -/
theorem main_app_shows_configured (env : Environment P) (later : List (Environment P))
    (next : Environment P) (hnext : next.showCalls = ⟨true, true, true⟩) :
    ∃ enough, ∀ fuel ≥ enough, ∀ w w₁ w₂ w₃ run₁ runs run sLan, w.CallsSucceed settings.uciCalls →
      step fuel w env = some (w₁, run₁) → Runs.run (step fuel) w₁ later = some (w₂, runs) →
      Loads next.package (w₂.load (str "network")).contents sLan →
      step fuel w₂ next = some (w₃, run) →
      ∃ options, run.lanFile.bind ShowLan.decodeLan = some options ∧
        ∀ update ∈ settings.lanUpdates, ∀ value,
          (update.1.optionName, value) ∈ options ↔ update.2 = some value := by
  obtain ⟨enough, r, hshow, hlan⟩ := showLanConfig_returns next.showCalls next.package next.lanFile
  refine ⟨enough, ?_⟩
  intro fuel hfuel w w₁ w₂ w₃ run₁ runs run sLan hcalls hstep hrun hloads hnextStep
  have hconfigured : LanConfigured w₂ := by
    refine Runs.run_invariant (I := LanConfigured) ?_ later ?_ hrun
    · intro w env w' run h hstep
      exact h.step hstep
    · obtain ⟨rfl, -⟩ := main_eq_some hstep
      exact (configure_cases settings env.system w).lanConfigured hcalls
  have hfile : run.lanFile = some (ShowLan.lanText sLan) := by
    rw [step, main, hshow fuel hfuel, hlan hnext sLan hloads.found] at hnextStep
    cases hnextStep
    rfl
  refine ⟨ShowLan.shownOptions sLan, ?_, ?_⟩
  · rw [hfile]
    exact ShowLan.decodeLan_lanText hloads.printable
  · intro update hmem value
    have hread := hconfigured update hmem
    have hkey : update.1.packageName = str "network" ∧
        update.1.key = (str "lan", update.1.optionName) := by
      have hall : ∀ update ∈ settings.lanUpdates, update.1.packageName = str "network" ∧
          update.1.key = (str "lan", update.1.optionName) := by decide
      exact hall update hmem
    rw [hkey.1, hkey.2, effective] at hread
    rw [← hloads.options, hread]

/-! ## Two runs from an empty store -/

/-- A store without options, whose calls all succeed. -/
def emptyStore : World := ⟨fun _ _ => none, fun _ => [], fun _ => none, fun _ => true, 0⟩

/-- The section of the LAN with the configured options. -/
def lanSection : ShowLan.UciSection ℕ where
  type := str "interface"
  name := str "lan"
  options := .ofList ⟨[], .other⟩
    [⟨str "ipaddr", .string settings.newIp⟩, ⟨str "netmask", .string settings.newMask⟩]

/-- A run that loads this section. -/
def showing : Environment ℕ where
  showCalls := ⟨true, true, true⟩
  package := ⟨.ofList lanSection [lanSection]⟩
  lanFile := none
  system := fun _ => 0
  ifconfig := none
  leases := ⟨0, fun _ => .missing 180⟩

theorem shownOptions_lanSection : ShowLan.shownOptions lanSection =
    [(str "ipaddr", settings.newIp), (str "netmask", settings.newMask)] := rfl

/-- What the first run leaves is what the second one loads. -/
theorem loads_lanSection : Loads showing.package
    ((configure settings showing.system emptyStore).1.load (str "network")).contents
      lanSection where
  found := rfl
  printable := by
    intro x hx
    rw [shownOptions_lanSection] at hx
    have hall : ∀ x ∈ [(str "ipaddr", settings.newIp), (str "netmask", settings.newMask)],
        space ∉ x.1 ∧ newline ∉ x.2 := by decide
    exact hall x hx
  options := by
    intro name value
    have hcontents := (configure_cases settings showing.system emptyStore).network
      (fun _ _ => rfl) (str "lan", name)
    have hfold : (emptyStore.load (str "network")).contents.fold (cutEdits settings.lanUpdates) =
        Function.update (Function.update (fun _ => none) (str "lan", str "ipaddr")
          (some settings.newIp)) (str "lan", str "netmask") (some settings.newMask) := rfl
    rw [hfold, effective] at hcontents
    rw [hcontents, shownOptions_lanSection]
    have hne : str "ipaddr" ≠ str "netmask" := by decide
    by_cases hmask : name = str "netmask"
    · subst hmask
      rw [Function.update_self]
      simp [hne, eq_comm]
    · have hmask' : ((str "lan", name) : Key) ≠ (str "lan", str "netmask") :=
        fun h => hmask (congrArg Prod.snd h)
      rw [Function.update_of_ne hmask']
      by_cases hip : name = str "ipaddr"
      · subst hip
        rw [Function.update_self]
        simp [hne, eq_comm]
      · have hip' : ((str "lan", name) : Key) ≠ (str "lan", str "ipaddr") :=
          fun h => hip (congrArg Prod.snd h)
        rw [Function.update_of_ne hip']
        simp [hmask, hip]

theorem main_app_shows_configured_two_runs : ∃ fuel w₁ run₁ w₂ run options,
    step fuel emptyStore showing = some (w₁, run₁) ∧ step fuel w₁ showing = some (w₂, run) ∧
      run.lanFile.bind ShowLan.decodeLan = some options ∧
      ∀ update ∈ settings.lanUpdates, ∀ value,
        (update.1.optionName, value) ∈ options ↔ update.2 = some value := by
  obtain ⟨enough, hshows⟩ := main_app_shows_configured showing [] showing rfl
  obtain ⟨n, hreturns⟩ := main_returns showing
  obtain ⟨run₁, hstep₁, -⟩ := hreturns (max enough n) (le_max_right _ _) emptyStore
  obtain ⟨run, hstep, -⟩ := hreturns (max enough n) (le_max_right _ _)
    (configure settings showing.system emptyStore).1
  obtain ⟨options, hoptions, hall⟩ := hshows (max enough n) (le_max_left _ _) emptyStore _ _ _ run₁
    [] run lanSection (fun _ _ => rfl) hstep₁ rfl loads_lanSection hstep
  exact ⟨_, _, run₁, _, run, options, hstep₁, hstep, hoptions, hall⟩

end MainApp
