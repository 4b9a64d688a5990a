/-
# The configuration program

`main` of `main_app.c` sets the address of the LAN, then the DHCP options, and restarts the
services if both went well.  `configure_cases` says how this ends, and from it follows what
holds over any number of runs, whichever calls fail in each of them (`main_app_runs_sound`):
the services are restarted exactly when every call of the two setters succeeds, whatever
`show_lan_config` met, only with all the options committed, and no run ever edits another option
of the store.  What others had staged for the two packages goes with the commit.
-/
import RouterTools.LanCheck
import RouterTools.LeasePolling
import RouterTools.Runs
import RouterTools.ShowLan
import RouterTools.UciSetters

namespace MainApp

open CString
open Uci UciSetters

/-! ## The source -/

/-- `"/etc/init.d/network restart"`. -/
def networkRestart : CString := str "/etc/init.d/network restart"

/-- `"/etc/init.d/dnsmasq restart"`. -/
def dnsmasqRestart : CString := str "/etc/init.d/dnsmasq restart"

/-- `apply_network_changes`: its status, and the commands it gives; `system` is what `system()`
returns for a command. -/
def applyNetworkChanges (system : CString → ℤ) : ℤ × List CString :=
  let successStatus : ℤ := 0
  let successStatus := if system networkRestart ≠ 0 then -1 else successStatus
  let successStatus := if system dnsmasqRestart ≠ 0 then -1 else successStatus
  (successStatus, [networkRestart, dnsmasqRestart])

/-- What `main` configures. -/
structure Settings where
  newIp : CString
  newMask : CString
  newDhcpStart : CString
  newDhcpLimit : CString
  newDhcpLeasetime : CString
  dhcpEnableState : ℤ

/-- The constants of `main`. -/
def settings : Settings where
  newIp := str "192.168.88.1"
  newMask := str "255.255.255.0"
  newDhcpStart := str "192.168.88.100"
  newDhcpLimit := str "86"
  newDhcpLeasetime := str "43200"
  dhcpEnableState := 1

/-- What the three steps of the configuration leave behind. -/
structure Report where
  finalResult : ℤ
  /-- The commands given to `system()`. -/
  commands : List CString
  printed : List CString

/-- The text printed at the end of a configuration that failed. -/
def failedText : CString :=
  str "main_app: Mot hoac nhieu buoc cau hinh (IP, DHCP, Apply) da that bai. " ++
    str "Kiem tra log de biet chi tiet.\n"

/-- The text printed when a restart failed. -/
def applyFailedText : CString :=
  str "main_app: Ap dung thay doi cau hinh THAT BAI! Ma loi: -1\n"

/-- The text printed when both restarts went well. -/
def appliedText (newIp : CString) : CString :=
  str "main_app: Ap dung thay doi cau hinh thanh cong " ++ newIp ++ str "\n"

/-- The third step of `main`. -/
def apply (s : Settings) (system : CString → ℤ) : Report :=
  let (applyResult, commands) := applyNetworkChanges system
  if applyResult ≠ 0 then ⟨-1, commands, [applyFailedText, failedText]⟩
  else ⟨0, commands, [appliedText s.newIp]⟩

/-- The three steps of `main`; each is made only if those before it went well. -/
def configure (s : Settings) (system : CString → ℤ) (w : World) : World × Report :=
  let (w, ipSetResult) := setLanIpConfig w (some s.newIp) (some s.newMask)
  if ipSetResult ≠ 0 then (w, ⟨-1, [], [failedText]⟩)
  else
    let (w, dhcpSetResult) := setDhcpLanConfig w (some s.newDhcpStart) (some s.newDhcpLimit)
      (some s.newDhcpLeasetime) s.dhcpEnableState
    if dhcpSetResult ≠ 0 then (w, ⟨-1, [], [failedText]⟩) else (w, apply s system)

/-- `atol`. -/
def atol (s : CString) : ℤ :=
  match Sscanf.sscanf [.long] s with
  | [.long n] => n
  | _ => 0

/-- `atoi`. -/
def atoi (s : CString) : Int32 := Int32.ofInt (atol s)

/-- What a run of the program finds: the outcomes of the calls of `show_lan_config` and the
package it loads, `lan.txt`, what `system()` returns, the output of `ifconfig`, and the lease
file with the clock. -/
structure Environment (P : Type) where
  showCalls : ShowLan.Calls
  package : ShowLan.UciPackage P
  lanFile : Option CString
  system : CString → ℤ
  ifconfig : Option (List UInt8)
  leases : DhcpLeases.Environment

/-- What a run of the program leaves, besides the store. -/
structure MainRun where
  resultTxt : ℤ
  lanFile : Option CString
  report : Report
  validityCheckResult : ℤ
  /-- There is none while the polling goes on. -/
  leases : Option DhcpLeases.Outcome

variable {P : Type} [DecidableEq P]

/-- `main`, less what it prints besides the outcome of the configuration; `none` is a loop of
`show_lan_config` that is still running. -/
def main (fuel : ℕ) (env : Environment P) (w : World) : Option (World × MainRun) :=
  match ShowLan.showLanConfig env.showCalls env.package fuel env.lanFile with
  | none => none
  | some (resultTxt, lanFile) =>
      let (w, report) := configure settings env.system w
      let validityCheckResult := LanCheck.checkLanIpConfigValidity (some settings.newIp)
        (some settings.newMask) env.ifconfig
      let leases := DhcpLeases.checkDhcpLeasesWithValidation fuel (some settings.newDhcpStart)
        (atoi settings.newDhcpLimit) (atol settings.newDhcpLeasetime) env.leases
      some (w, ⟨resultTxt, lanFile, report, validityCheckResult, leases⟩)

/-- A run of the program. -/
def step (fuel : ℕ) (w : World) (env : Environment P) : Option (World × MainRun) :=
  main fuel env w

/-! ## What stays as it was -/

/-- What an option reads from the store: the committed value under the staged edits. -/
def effective (w : World) (name : CString) (key : Key) : Option CString :=
  (w.load name).contents key

/-- An option reads the same.  It is committed as it was or, with what was staged, as it read;
it is committed as it was if no edit of it was staged. -/
structure Untouched (start w : World) (name : CString) (key : Key) : Prop where
  effective : effective w name key = effective start name key
  settled : w.committed name key = start.committed name key ∨
    w.committed name key = MainApp.effective start name key
  committed : (∀ e ∈ start.pending name, e.key ≠ key) →
    w.committed name key = start.committed name key ∧ ∀ e ∈ w.pending name, e.key ≠ key

variable {start w w' : World} {name name' : CString} {edits : List Edit} {key : Key}

theorem Untouched.refl (w : World) (name : CString) (key : Key) : Untouched w w name key :=
  ⟨rfl, .inl rfl, fun hstaged => ⟨rfl, hstaged⟩⟩

theorem Untouched.trans (h : Untouched start w name key) (h' : Untouched w w' name key) :
    Untouched start w' name key := by
  refine ⟨h'.effective.trans h.effective, ?_, fun hstaged => ?_⟩
  · rcases h'.settled with hsettled | hsettled
    · rw [hsettled]
      exact h.settled
    · rw [hsettled, h.effective]
      exact .inr rfl
  obtain ⟨hcommitted, hpending⟩ := h.committed hstaged
  obtain ⟨hcommitted', hpending'⟩ := h'.committed hpending
  exact ⟨hcommitted'.trans hcommitted, hpending'⟩

/-- What a setter may leave of the store. -/
inductive Moved (start : World) (name : CString) (edits : List Edit) (w : World) : Prop where
  | same (hstore : start.SameStore w)
  | staged (hcommitted : w.committed = start.committed)
      (hpending : w.pending = Function.update start.pending name (start.pending name ++ edits))
  | committed (hdisk : Committed start name edits w)

/-- The options of a package that is committed. -/
theorem effective_committed (h : Committed start name edits w) (key : Key) :
    effective w name key = (start.load name).contents.fold edits key := by
  rw [effective, World.load, h.committed, h.pending, Function.update_self, Function.update_self]
  rfl

/-- The options of a package with edits staged. -/
theorem effective_staged (hcommitted : w.committed = start.committed)
    (hpending : w.pending = Function.update start.pending name (start.pending name ++ edits))
    (key : Key) : effective w name key = (start.load name).contents.fold edits key := by
  rw [effective, World.load, hcommitted, hpending, Function.update_self]
  exact congrFun (fold_append _ _ _) key

/-- The other packages. -/
theorem Moved.other (h : Moved start name edits w) (hname : name' ≠ name) :
    w.committed name' = start.committed name' ∧ w.pending name' = start.pending name' := by
  cases h with
  | same hstore => exact ⟨by rw [hstore.1], by rw [hstore.2]⟩
  | staged hcommitted hpending =>
      exact ⟨by rw [hcommitted], by rw [hpending, Function.update_of_ne hname]⟩
  | committed hdisk =>
      exact ⟨by rw [hdisk.committed, Function.update_of_ne hname],
        by rw [hdisk.pending, Function.update_of_ne hname]⟩

theorem effective_congr (hcommitted : w.committed name = start.committed name)
    (hpending : w.pending name = start.pending name) (key : Key) :
    effective w name key = effective start name key := by
  rw [effective, effective, World.load, World.load, hcommitted, hpending]

/-- **An option that is not edited is untouched.** -/
theorem Moved.untouched (h : Moved start name edits w)
    (hkey : name' = name → ∀ e ∈ edits, e.key ≠ key) : Untouched start w name' key := by
  by_cases hname : name' = name
  · subst hname
    have hedits := hkey rfl
    cases h with
    | same hstore =>
        have hcommitted : w.committed name' = start.committed name' := by rw [hstore.1]
        have hpending : w.pending name' = start.pending name' := by rw [hstore.2]
        refine ⟨effective_congr hcommitted hpending key, .inl (by rw [hcommitted]),
          fun hstaged => ?_⟩
        rw [hcommitted, hpending]
        exact ⟨rfl, hstaged⟩
    | staged hcommitted hpending =>
        refine ⟨?_, .inl (by rw [hcommitted]), fun hstaged => ⟨by rw [hcommitted], fun e he => ?_⟩⟩
        · rw [effective_staged hcommitted hpending]
          exact fold_of_not_mem hedits _
        · rw [hpending, Function.update_self] at he
          exact (List.mem_append.mp he).elim (hstaged e) (hedits e)
    | committed hdisk =>
        have hfold : (start.load name').contents.fold edits key =
            (start.load name').contents key := fold_of_not_mem hedits _
        refine ⟨by rw [effective_committed hdisk, hfold]; rfl, .inr ?_,
          fun hstaged => ⟨?_, ?_⟩⟩
        · rw [hdisk.committed, Function.update_self]
          exact hfold
        · rw [hdisk.committed, Function.update_self, hfold]
          exact fold_of_not_mem hstaged _
        · rw [hdisk.pending, Function.update_self]
          exact fun e he => nomatch he
  · obtain ⟨hcommitted, hpending⟩ := h.other hname
    refine ⟨effective_congr hcommitted hpending key, .inl (by rw [hcommitted]), fun hstaged => ?_⟩
    rw [hcommitted, hpending]
    exact ⟨rfl, hstaged⟩

/-- **An option that is edited** reads as before or has the value of its edit. -/
theorem Moved.edited (h : Moved start name edits w) (hkeys : (edits.map Edit.key).Nodup)
    {edit : Edit} (hedit : edit ∈ edits) :
    effective w name edit.key = effective start name edit.key ∨
      effective w name edit.key = some edit.value := by
  cases h with
  | same hstore =>
      exact .inl (effective_congr (by rw [hstore.1]) (by rw [hstore.2]) edit.key)
  | staged hcommitted hpending =>
      right
      rw [effective_staged hcommitted hpending]
      exact fold_of_mem hkeys hedit _
  | committed hdisk =>
      right
      rw [effective_committed hdisk]
      exact fold_of_mem hkeys hedit _

/-! ## The outcome of a setter -/

/-- **A setter with something to set** succeeds exactly when all its calls do, and then its
edits are committed. -/
theorem updateOptions_cases (start : World) (noChange : ℤ)
    {updates : List (OptionPath × Option CString)} (hin : InPackage name updates)
    (hne : cutEdits updates ≠ []) :
    (∃ w, updateOptions start noChange updates = (w, -1) ∧
        ¬ start.CallsSucceed (2 * (cutEdits updates).length + 3) ∧
        Moved start name (cutEdits updates) w) ∨
      ∃ w, updateOptions start noChange updates = (w, 0) ∧
        start.CallsSucceed (2 * (cutEdits updates).length + 3) ∧
        Committed start name (cutEdits updates) w ∧ w.succeeds = start.succeeds ∧
        w.calls = start.calls + (2 * (cutEdits updates).length + 3) := by
  unfold updateOptions
  rcases allocContext_cases start name with ⟨w₀, halloc, hstore, hfail⟩ | ⟨w₀, halloc, hedit⟩
  · rw [halloc]
    exact .inl ⟨w₀, rfl, fun hall => hfail (hall.mono (by omega)), .same hstore⟩
  rw [halloc]
  dsimp only
  have hnone : ∀ p, (none : Option Ptr) = some p →
      p.packageName = name ∧ (w₀.loaded name).isSome = true := by
    intro p hp
    cases hp
  rcases setEach_cases hin hedit hnone with
    ⟨w₁, heach, hstore, hfail⟩ | ⟨w₁, ptr, heach, hedit₁, hptr, hidle⟩
  · rw [heach]
    exact .inl ⟨freeContext w₁, rfl, fun hall => hfail (hall.mono (by omega)), .same hstore⟩
  rw [heach]
  rw [List.nil_append] at hedit₁
  cases ptr with
  | none => exact absurd (hidle.mp rfl).2 hne
  | some p =>
      obtain ⟨rfl, hloaded⟩ := hptr p rfl
      dsimp only
      unfold saveAndCommit
      rcases hedit₁.save hloaded with ⟨w₂, hsave, hstore, hfail⟩ | ⟨w₂, hsave, hsaved⟩
      · rw [hsave]
        exact .inl ⟨freeContext w₂, rfl, fun hall => hfail (hall.mono (by omega)), .same hstore⟩
      rw [hsave]
      dsimp only
      have hcalls : 1 + 2 * (cutEdits updates).length + 1 =
          2 * (cutEdits updates).length + 2 := by omega
      rw [hcalls] at hsaved
      have hmade : (commit w₂ p.packageName).1.succeeds = w₂.succeeds ∧
          (commit w₂ p.packageName).1.calls = w₂.calls + 1 := by
        unfold commit World.call
        cases w₂.succeeds w₂.calls <;> exact ⟨rfl, rfl⟩
      rcases hsaved.commit with
        ⟨w₃, hcommit, hcall, hcommitted, hpending⟩ | ⟨w₃, hcommit, hcall, hcommitted, hpending⟩
      · rw [hcommit]
        refine .inl ⟨freeContext w₃, rfl, fun hall => ?_, .staged hcommitted hpending⟩
        rw [(World.callsSucceed_succ.mp hall).2] at hcall
        cases hcall
      · rw [hcommit] at hmade ⊢
        refine .inr ⟨freeContext w₃, rfl, World.callsSucceed_succ.mpr ⟨hsaved.succeeded, hcall⟩,
          ⟨hcommitted, hpending⟩, hmade.1.trans hsaved.succeeds, ?_⟩
        show w₃.calls = _
        rw [hmade.2, hsaved.calls, Nat.add_assoc]

/-! ## The outcome of the configuration -/

/-- The options of the first step. -/
def Settings.lanUpdates (s : Settings) : List (OptionPath × Option CString) :=
  [(lanIpaddr, some s.newIp), (lanNetmask, some s.newMask)]

/-- The options of the second step. -/
def Settings.dhcpUpdates (s : Settings) : List (OptionPath × Option CString) :=
  [(dhcpIgnore, ignoreValue s.dhcpEnableState), (dhcpStart, some s.newDhcpStart),
    (dhcpLimit, some s.newDhcpLimit), (dhcpLeasetime, some s.newDhcpLeasetime)]

/-- All the options of a configuration. -/
def Settings.updates (s : Settings) : List (OptionPath × Option CString) :=
  s.lanUpdates ++ s.dhcpUpdates

/-- The number of calls of the library that the two setters make. -/
def Settings.uciCalls (s : Settings) : ℕ := 7 + (2 * (cutEdits s.dhcpUpdates).length + 3)

/-- The ways the configuration ends: the first step fails, the second step fails, or both
packages are committed and the services restarted. -/
inductive Configured (s : Settings) (system : CString → ℤ) (w : World) : World × Report → Prop where
  | lanFailed {w₁ : World} (hcalls : ¬ w.CallsSucceed s.uciCalls)
      (hlan : Moved w (str "network") (cutEdits s.lanUpdates) w₁) :
      Configured s system w (w₁, ⟨-1, [], [failedText]⟩)
  | dhcpFailed {w₁ w₂ : World} (hcalls : ¬ w.CallsSucceed s.uciCalls)
      (hlan : Committed w (str "network") (cutEdits s.lanUpdates) w₁)
      (hdhcp : Moved w₁ (str "dhcp") (cutEdits s.dhcpUpdates) w₂) :
      Configured s system w (w₂, ⟨-1, [], [failedText]⟩)
  | applied {w₁ w₂ : World} (hcalls : w.CallsSucceed s.uciCalls)
      (hlan : Committed w (str "network") (cutEdits s.lanUpdates) w₁)
      (hdhcp : Committed w₁ (str "dhcp") (cutEdits s.dhcpUpdates) w₂) :
      Configured s system w (w₂, apply s system)

theorem dhcpEdits_ne_nil (s : Settings) : cutEdits s.dhcpUpdates ≠ [] := by
  have hmem : cutEdit dhcpStart s.newDhcpStart ∈ cutEdits s.dhcpUpdates :=
    mem_cutEdits.mpr ⟨(dhcpStart, some s.newDhcpStart), by simp [Settings.dhcpUpdates], _, rfl, rfl⟩
  exact List.ne_nil_of_mem hmem

/-- Calls that follow others. -/
theorem callsSucceed_add {n m : ℕ} (hn : start.CallsSucceed n)
    (hsucceeds : w.succeeds = start.succeeds) (hcalls : w.calls = start.calls + n) :
    start.CallsSucceed (n + m) ↔ w.CallsSucceed m := by
  constructor
  · intro h i hi
    rw [hsucceeds, hcalls, Nat.add_assoc]
    exact h (n + i) (by omega)
  · intro h i hi
    by_cases hlt : i < n
    · exact hn i hlt
    · have hi' := h (i - n) (by omega)
      have heq : start.calls + n + (i - n) = start.calls + i := by omega
      rwa [hsucceeds, hcalls, heq] at hi'

/-- **How the configuration ends.** -/
theorem configure_cases (s : Settings) (system : CString → ℤ) (w : World) :
    Configured s system w (configure s system w) := by
  unfold configure
  have hlan : setLanIpConfig w (some s.newIp) (some s.newMask) =
      updateOptions w (-1) s.lanUpdates := rfl
  have hdhcp : ∀ w₁, setDhcpLanConfig w₁ (some s.newDhcpStart) (some s.newDhcpLimit)
      (some s.newDhcpLeasetime) s.dhcpEnableState = updateOptions w₁ 0 s.dhcpUpdates := fun _ => rfl
  have hlen : 2 * (cutEdits s.lanUpdates).length + 3 = 7 := rfl
  have hinLan : InPackage (str "network") s.lanUpdates := inPackage_lan _ _
  have hinDhcp : InPackage (str "dhcp") s.dhcpUpdates := inPackage_dhcp _ _ _ _
  rcases updateOptions_cases w (-1) hinLan (List.cons_ne_nil _ _) with
    ⟨w₁, hset, hfail, hmoved⟩ | ⟨w₁, hset, hall, hcommitted, hsucceeds, hcalls⟩
  · rw [hlan, hset]
    exact .lanFailed (fun h => hfail (h.mono (by rw [hlen, Settings.uciCalls]; omega))) hmoved
  · rw [hlan, hset]
    dsimp only
    rw [if_neg (by simp), hdhcp]
    rw [hlen] at hall hcalls
    -- the calls of the second setter are those behind the first seven
    have hsecond : w.CallsSucceed s.uciCalls ↔
        w₁.CallsSucceed (2 * (cutEdits s.dhcpUpdates).length + 3) :=
      callsSucceed_add hall hsucceeds hcalls
    rcases updateOptions_cases w₁ 0 hinDhcp (dhcpEdits_ne_nil s) with
      ⟨w₂, hset₂, hfail₂, hmoved₂⟩ | ⟨w₂, hset₂, hall₂, hcommitted₂, -, -⟩
    · rw [hset₂]
      exact .dhcpFailed (mt hsecond.mp hfail₂) hcommitted hmoved₂
    · rw [hset₂]
      exact .applied (hsecond.mpr hall₂) hcommitted hcommitted₂

/-! ## Over many runs -/

/-- The values that are set fit, with their paths, into the buffer of the setters. -/
def Fits (updates : List (OptionPath × Option CString)) : Prop :=
  ∀ update ∈ updates, ∀ value, update.2 = some value →
    value.length ≤ 255 - update.1.text.length

/-- The option is none of those that are set. -/
def NotSet (updates : List (OptionPath × Option CString)) (name : CString) (key : Key) : Prop :=
  ∀ update ∈ updates, update.2.isSome → (name, key) ≠ (update.1.packageName, update.1.key)

/-- From one store to another only options that are set have changed, each to its value. -/
structure Drift (updates : List (OptionPath × Option CString)) (start w : World) : Prop where
  untouched : ∀ name key, NotSet updates name key → Untouched start w name key
  edited : ∀ update ∈ updates, ∀ value, update.2 = some value →
    effective w update.1.packageName update.1.key =
        effective start update.1.packageName update.1.key ∨
      effective w update.1.packageName update.1.key = some value

variable {updates updates' : List (OptionPath × Option CString)}

theorem Drift.refl (updates : List (OptionPath × Option CString)) (w : World) :
    Drift updates w w :=
  ⟨fun name key _ => .refl w name key, fun _ _ _ _ => .inl rfl⟩

theorem Drift.trans (h : Drift updates start w) (h' : Drift updates w w') :
    Drift updates start w' := by
  constructor
  · intro name key hnot
    exact (h.untouched name key hnot).trans (h'.untouched name key hnot)
  · intro update hmem value hvalue
    rcases h'.edited update hmem value hvalue with heq | heq
    · rw [heq]
      exact h.edited update hmem value hvalue
    · exact .inr heq

/-- One setter after the other, for different packages. -/
theorem Drift.append {name name' : CString} (h : Drift updates start w)
    (h' : Drift updates' w w') (hin : InPackage name updates) (hin' : InPackage name' updates')
    (hne : name ≠ name') : Drift (updates ++ updates') start w' := by
  have hnot : ∀ update ∈ updates, ∀ key, NotSet updates' update.1.packageName key := by
    intro update hmem key update' hmem' _ heq
    apply hne
    rw [← (hin update hmem).1, ← (hin' update' hmem').1]
    exact congrArg Prod.fst heq
  have hnot' : ∀ update ∈ updates', ∀ key, NotSet updates update.1.packageName key := by
    intro update hmem key update' hmem' _ heq
    apply hne
    rw [← (hin update' hmem').1, ← (hin' update hmem).1]
    exact (congrArg Prod.fst heq).symm
  constructor
  · intro name key hall
    have hfirst : NotSet updates name key := fun update hmem =>
      hall update (List.mem_append_left _ hmem)
    have hsecond : NotSet updates' name key := fun update hmem =>
      hall update (List.mem_append_right _ hmem)
    exact (h.untouched name key hfirst).trans (h'.untouched name key hsecond)
  · intro update hmem value hvalue
    rcases List.mem_append.mp hmem with hmem | hmem
    · rw [(h'.untouched _ _ (hnot update hmem update.1.key)).effective]
      exact h.edited update hmem value hvalue
    · rw [← (h.untouched _ _ (hnot' update hmem update.1.key)).effective]
      exact h'.edited update hmem value hvalue

theorem cutEdit_of_fits (hfits : Fits updates) {update : OptionPath × Option CString}
    (hmem : update ∈ updates) {value : CString} (hvalue : update.2 = some value) :
    cutEdit update.1 value = ⟨update.1.key, value⟩ := by
  rw [cutEdit, List.take_of_length_le (hfits update hmem value hvalue)]

/-- **A setter changes the options that it is to set**, and no others. -/
theorem Moved.drift (h : Moved start name (cutEdits updates) w) (hin : InPackage name updates)
    (hkeys : (updates.map fun update => update.1.key).Nodup) (hfits : Fits updates) :
    Drift updates start w := by
  constructor
  · intro name' key hnot
    refine h.untouched ?_
    rintro rfl e he rfl
    obtain ⟨update, hmem, value, hvalue, rfl⟩ := mem_cutEdits.mp he
    refine hnot update hmem (by rw [hvalue]; rfl) ?_
    rw [(hin update hmem).1]
    rfl
  · intro update hmem value hvalue
    have hedit : cutEdit update.1 value ∈ cutEdits updates :=
      mem_cutEdits.mpr ⟨update, hmem, value, hvalue, rfl⟩
    have hedited := h.edited (hkeys.sublist (cutEdits_keys_sublist updates)) hedit
    rw [cutEdit_of_fits hfits hmem hvalue] at hedited
    rw [(hin update hmem).1]
    exact hedited

/-- A commit gives the options their values. -/
theorem Committed.values (h : Committed start name (cutEdits updates) w)
    (hin : InPackage name updates) (hkeys : (updates.map fun update => update.1.key).Nodup)
    (hfits : Fits updates) {update : OptionPath × Option CString} (hmem : update ∈ updates)
    {value : CString} (hvalue : update.2 = some value) : get w update.1 = some value := by
  rw [h.get_eq (hkeys.sublist (cutEdits_keys_sublist updates)) (hin update hmem).1
    (mem_cutEdits.mpr ⟨update, hmem, value, hvalue, rfl⟩),
    List.take_of_length_le (hfits update hmem value hvalue)]

/-- What holds after a run: the services were restarted, both, exactly when every call of the
setters succeeded, and then all the options are committed; the run is not reported as a failure
exactly when the restarts went well too; and since `start` nothing but these options has
been edited. -/
structure RunSound (s : Settings) (start w : World) (system : CString → ℤ) (w' : World)
    (report : Report) : Prop where
  restarted : w.CallsSucceed s.uciCalls → report.commands = [networkRestart, dnsmasqRestart] ∧
    ∀ update ∈ s.updates, ∀ value, update.2 = some value → get w' update.1 = some value
  refused : ¬ w.CallsSucceed s.uciCalls → report.commands = []
  result : failedText ∉ report.printed ↔
    w.CallsSucceed s.uciCalls ∧ system networkRestart = 0 ∧ system dnsmasqRestart = 0
  drift : Drift s.updates start w'

theorem lanKeys_nodup (s : Settings) : (s.lanUpdates.map fun update => update.1.key).Nodup :=
  show [lanIpaddr.key, lanNetmask.key].Nodup by decide

theorem dhcpKeys_nodup (s : Settings) : (s.dhcpUpdates.map fun update => update.1.key).Nodup :=
  show [dhcpIgnore.key, dhcpStart.key, dhcpLimit.key, dhcpLeasetime.key].Nodup by decide

/-- The two texts differ behind `"main_app: "`. -/
theorem failedText_ne_appliedText (newIp : CString) : failedText ≠ appliedText newIp := by
  intro h
  have htake := congrArg (List.take 12) h
  rw [appliedText, List.append_assoc, List.take_append_of_le_length (by decide)] at htake
  revert htake
  decide

theorem apply_printed (s : Settings) (system : CString → ℤ) :
    failedText ∉ (apply s system).printed ↔
      system networkRestart = 0 ∧ system dnsmasqRestart = 0 := by
  have hne := failedText_ne_appliedText s.newIp
  unfold apply applyNetworkChanges
  by_cases hnetwork : system networkRestart = 0 <;>
    by_cases hdnsmasq : system dnsmasqRestart = 0 <;>
      simp [hnetwork, hdnsmasq, hne]

theorem apply_commands (s : Settings) (system : CString → ℤ) :
    (apply s system).commands = [networkRestart, dnsmasqRestart] := by
  unfold apply
  dsimp only
  split_ifs <;> rfl

/-- **One run**, from a store that has drifted only. -/
theorem Configured.sound {s : Settings} {system : CString → ℤ} {r : World × Report}
    (h : Configured s system w r) (hfits : Fits s.updates) (hdrift : Drift s.updates start w) :
    RunSound s start w system r.1 r.2 := by
  have hlanFits : Fits s.lanUpdates := fun update hmem =>
    hfits update (List.mem_append_left _ hmem)
  have hdhcpFits : Fits s.dhcpUpdates := fun update hmem =>
    hfits update (List.mem_append_right _ hmem)
  have hlanIn : InPackage (str "network") s.lanUpdates := inPackage_lan _ _
  have hdhcpIn : InPackage (str "dhcp") s.dhcpUpdates := inPackage_dhcp _ _ _ _
  have hne : str "network" ≠ str "dhcp" := by decide
  have hlanDrift : ∀ {w₁}, Moved w (str "network") (cutEdits s.lanUpdates) w₁ →
      Drift s.lanUpdates w w₁ := fun h => h.drift hlanIn (lanKeys_nodup s) hlanFits
  have hdhcpDrift : ∀ {w₁ w₂}, Moved w₁ (str "dhcp") (cutEdits s.dhcpUpdates) w₂ →
      Drift s.dhcpUpdates w₁ w₂ := fun h => h.drift hdhcpIn (dhcpKeys_nodup s) hdhcpFits
  have hboth : ∀ {w₁ w₂}, Drift s.lanUpdates w w₁ → Drift s.dhcpUpdates w₁ w₂ →
      Drift s.updates start w₂ := fun h h' => hdrift.trans (h.append h' hlanIn hdhcpIn hne)
  cases h with
  | lanFailed hcalls hlan =>
      refine ⟨fun h => absurd h hcalls, fun _ => rfl, ?_, hboth (hlanDrift hlan) (.refl _ _)⟩
      exact iff_of_false (fun h => h (List.mem_singleton_self _)) fun h => hcalls h.1
  | dhcpFailed hcalls hlan hdhcp =>
      refine ⟨fun h => absurd h hcalls, fun _ => rfl, ?_,
        hboth (hlanDrift (.committed hlan)) (hdhcpDrift hdhcp)⟩
      exact iff_of_false (fun h => h (List.mem_singleton_self _)) fun h => hcalls h.1
  | @applied w₁ w₂ hcalls hlan hdhcp =>
      refine ⟨fun _ => ⟨apply_commands s system, ?_⟩, fun h => absurd hcalls h, ?_,
        hboth (hlanDrift (.committed hlan)) (hdhcpDrift (.committed hdhcp))⟩
      · intro update hmem value hvalue
        rcases List.mem_append.mp hmem with hmem | hmem
        · -- the second commit is of another package
          have hlanValue := Committed.values hlan hlanIn (lanKeys_nodup s) hlanFits hmem hvalue
          rw [UciSetters.get, (hlanIn update hmem).1] at hlanValue ⊢
          rw [hdhcp.committed, Function.update_of_ne hne]
          exact hlanValue
        · exact Committed.values hdhcp hdhcpIn (dhcpKeys_nodup s) hdhcpFits hmem hvalue
      · rw [apply_printed]
        exact (and_iff_right hcalls).symm

/-! ## Runs of the program -/

/-- `show_lan_config` returns, with the file of the section of the LAN if there is one. -/
theorem showLanConfig_returns (calls : ShowLan.Calls) (pkg : ShowLan.UciPackage P)
    (file : Option CString) :
    ∃ enough r, (∀ fuel ≥ enough, ShowLan.showLanConfig calls pkg fuel file = some r) ∧
      (calls = ⟨true, true, true⟩ → ∀ sLan, pkg.sections.toList.find? ShowLan.isLan = some sLan →
        r = (0, some (ShowLan.lanText sLan))) := by
  obtain ⟨fopen, allocContext, load⟩ := calls
  cases fopen with
  | false => exact ⟨0, _, fun _ _ => rfl, fun h => nomatch h⟩
  | true =>
  cases allocContext with
  | false => exact ⟨0, _, fun _ _ => rfl, fun h => nomatch h⟩
  | true =>
  cases load with
  | false => exact ⟨0, _, fun _ _ => rfl, fun h => nomatch h⟩
  | true =>
  cases hfind : pkg.sections.toList.find? ShowLan.isLan with
  | none =>
      refine ⟨pkg.sections.nodes.length + 1, (-1, some []), fun fuel hfuel => ?_,
        fun _ sLan h => nomatch h⟩
      unfold ShowLan.showLanConfig
      simp only [if_true]
      rw [CircularList.foreach_find (by omega), hfind]
  | some sLan =>
      refine ⟨pkg.sections.nodes.length + 1 + (sLan.options.nodes.length +
        (sLan.options.toList.map ShowLan.rounds).sum), (0, some (ShowLan.lanText sLan)),
        fun fuel hfuel => ?_, ?_⟩
      · have hitems : ∀ opt ∈ sLan.options.toList, ShowLan.rounds opt < fuel := by
          intro opt hopt
          have hopt' : ShowLan.rounds opt ≤ (sLan.options.toList.map ShowLan.rounds).sum :=
            List.le_sum_of_mem (List.mem_map_of_mem hopt)
          omega
        unfold ShowLan.showLanConfig
        simp only [if_true]
        rw [CircularList.foreach_find (by omega), hfind]
        dsimp only
        rw [ShowLan.foreach_showOption sLan (by omega) hitems]
        rfl
      · intro _ sLan' h
        rw [Option.some.inj h]

/-- A run gets past `show_lan_config`, and does to the store what the configuration does. -/
theorem main_returns (env : Environment P) :
    ∃ enough, ∀ fuel ≥ enough, ∀ w, ∃ run,
      main fuel env w = some ((configure settings env.system w).1, run) ∧
        run.report = (configure settings env.system w).2 := by
  obtain ⟨enough, r, hshow, -⟩ := showLanConfig_returns env.showCalls env.package env.lanFile
  refine ⟨enough, fun fuel hfuel w => ?_⟩
  rw [main, hshow fuel hfuel]
  exact ⟨_, rfl, rfl⟩

theorem main_eq_some {fuel : ℕ} {env : Environment P} {run : MainRun}
    (h : main fuel env w = some (w', run)) :
    w' = (configure settings env.system w).1 ∧
      run.report = (configure settings env.system w).2 := by
  unfold main at h
  split at h
  · cases h
  · cases h
    exact ⟨rfl, rfl⟩

theorem settings_fit : Fits settings.updates := by
  simp only [Fits, Settings.updates, Settings.lanUpdates, Settings.dhcpUpdates, List.cons_append,
    List.nil_append, List.forall_mem_cons]
  refine ⟨?_, ?_, ?_, ?_, ?_, ?_, fun _ h => nomatch h⟩ <;> rintro _ ⟨⟩ <;> decide

/-- **However often the program is run, whatever fails**: each run gets past `show_lan_config`,
whose outcome decides nothing of what follows, and is sound in the store that the runs before it
have left. -/
theorem main_app_runs_sound (start : World) (envs : List (Environment P)) :
    ∃ enough, ∀ fuel ≥ enough,
      (∃ w' runs, Runs.run (step fuel) start envs = some (w', runs)) ∧
      Runs.Along (step fuel) (fun w env => ∀ w' run, step fuel w env = some (w', run) →
        RunSound settings start w env.system w' run.report) start envs := by
  obtain ⟨enough, hreturns⟩ : ∃ enough, ∀ fuel ≥ enough, ∀ env ∈ envs, ∀ w, ∃ run,
      main fuel env w = some ((configure settings env.system w).1, run) ∧
        run.report = (configure settings env.system w).2 := by
    induction envs with
    | nil => exact ⟨0, fun _ _ _ hmem => nomatch hmem⟩
    | cons env envs ih =>
        obtain ⟨n, hn⟩ := main_returns env
        obtain ⟨k, hk⟩ := ih
        refine ⟨max n k, fun fuel hfuel => List.forall_mem_cons.mpr ⟨?_, ?_⟩⟩
        · exact hn fuel (le_trans (le_max_left n k) hfuel)
        · exact hk fuel (le_trans (le_max_right n k) hfuel)
  refine ⟨enough, fun fuel hfuel => ⟨?_, ?_⟩⟩
  · refine Runs.run_total (I := fun _ => True) (· ∈ envs) ?_ envs start trivial fun _ h => h
    intro w env _ hmem
    obtain ⟨run, hrun, -⟩ := hreturns fuel hfuel env hmem w
    exact ⟨_, run, hrun, trivial⟩
  · intro before env after w os hsplit hrun w' run hstep
    -- the runs before this one have only drifted
    have hdrift : Drift settings.updates start w := by
      refine Runs.run_invariant (I := Drift settings.updates start) ?_ before (.refl _ _) hrun
      intro w₁ env₁ w₂ run₁ hdrift₁ hstep₁
      rw [(main_eq_some hstep₁).1]
      exact ((configure_cases _ _ _).sound settings_fit hdrift₁).drift
    obtain ⟨rfl, hreport⟩ := main_eq_some hstep
    rw [hreport]
    exact (configure_cases _ _ _).sound settings_fit hdrift

end MainApp
