/-
# The setters of the LAN and DHCP configuration

`set_lan_ip_config` and `set_dhcp_lan_config` of `uci_handler.c` set options one after
another in a context, save the package and commit it.  Two things go wrong.

* A failing commit comes after the save, and nothing takes the saved edits back:
  `uci_setters_atomic_iff` says that this is the only failure that leaves a trace.
* `package.section.option=value` is printed into 256 bytes, and nothing looks at what was
  cut: `uci_setters_exact_iff` says that a success is one exactly when nothing was.
-/
import Mathlib.Data.List.Nodup
import RouterTools.Uci

namespace UciSetters

open CString
open Uci

/-! ## The source -/

/-- `network.lan.ipaddr`. -/
def lanIpaddr : OptionPath where
  packageName := str "network"
  sectionName := str "lan"
  optionName := str "ipaddr"

/-- `network.lan.netmask`. -/
def lanNetmask : OptionPath where
  packageName := str "network"
  sectionName := str "lan"
  optionName := str "netmask"

/-- `dhcp.lan.ignore`. -/
def dhcpIgnore : OptionPath where
  packageName := str "dhcp"
  sectionName := str "lan"
  optionName := str "ignore"

/-- `dhcp.lan.start`. -/
def dhcpStart : OptionPath where
  packageName := str "dhcp"
  sectionName := str "lan"
  optionName := str "start"

/-- `dhcp.lan.limit`. -/
def dhcpLimit : OptionPath where
  packageName := str "dhcp"
  sectionName := str "lan"
  optionName := str "limit"

/-- `dhcp.lan.leasetime`. -/
def dhcpLeasetime : OptionPath where
  packageName := str "dhcp"
  sectionName := str "lan"
  optionName := str "leasetime"

/-- `snprintf(uci_path_spec, sizeof(uci_path_spec), "package.section.option=%s", value)`, then
`uci_lookup_ptr` and `uci_set`; `none` goes to the cleanup. -/
def setOption (w : World) (path : OptionPath) (value : CString) : World × Option Ptr :=
  match lookupPtr w (copyTo 256 (path.text ++ value)) with
  | (w, none) => (w, none)
  | (w, some ptr) =>
      match Uci.set w ptr with
      | (w, false) => (w, none)
      | (w, true) => (w, some ptr)

/-- The options that are set one after another, one that is NULL left out.  The inner value
is `ptr` as the last of them leaves it; there is none if `changes_made` is still 0. -/
def setEach (w : World) (ptr : Option Ptr) :
    List (OptionPath × Option CString) → World × Option (Option Ptr)
  | [] => (w, some ptr)
  | (_, none) :: updates => setEach w ptr updates
  | (path, some value) :: updates =>
      match setOption w path value with
      | (w, none) => (w, none)
      | (w, some ptr) => setEach w (some ptr) updates

/-- `uci_save` and `uci_commit`. -/
def saveAndCommit (w : World) (ptr : Ptr) : World × ℤ :=
  match save w ptr.packageName with
  | (w, false) => (w, -1)
  | (w, true) =>
      match commit w ptr.packageName with
      | (w, false) => (w, -1)
      | (w, true) => (w, 0)

/-- From `uci_alloc_context` to `uci_free_context`; `noChange` is the status when nothing was
set. -/
def updateOptions (w : World) (noChange : ℤ) (updates : List (OptionPath × Option CString)) :
    World × ℤ :=
  match allocContext w with
  | (w, false) => (w, -1)
  | (w, true) =>
      match setEach w none updates with
      | (w, none) => (freeContext w, -1)
      | (w, some none) => (freeContext w, noChange)
      | (w, some (some ptr)) =>
          match saveAndCommit w ptr with
          | (w, status) => (freeContext w, status)

/-- `set_lan_ip_config`; without a package in `ptr` there is nothing to commit. -/
def setLanIpConfig (w : World) (ipaddr netmask : Option CString) : World × ℤ :=
  match ipaddr, netmask with
  | some ipaddr, some netmask =>
      updateOptions w (-1) [(lanIpaddr, some ipaddr), (lanNetmask, some netmask)]
  | _, _ => (w, -1)

/-- `ignore_value`, which is set for the two statuses only. -/
def ignoreValue (dhcpEnabledStatus : ℤ) : Option CString :=
  if dhcpEnabledStatus = 1 ∨ dhcpEnabledStatus = 0 then
    some (if dhcpEnabledStatus = 1 then str "0" else str "1")
  else none

/-- `set_dhcp_lan_config`. -/
def setDhcpLanConfig (w : World) (startIp limit leasetime : Option CString)
    (dhcpEnabledStatus : ℤ) : World × ℤ :=
  updateOptions w 0 [(dhcpIgnore, ignoreValue dhcpEnabledStatus), (dhcpStart, startIp),
    (dhcpLimit, limit), (dhcpLeasetime, leasetime)]

/-! ## What the options are set to -/

/-- The edit that sets an option: the value as far as it fits into the buffer. -/
def cutEdit (path : OptionPath) (value : CString) : Edit :=
  ⟨path.key, value.take (255 - path.text.length)⟩

/-- The edits of the options that are set. -/
def cutEdits (updates : List (OptionPath × Option CString)) : List Edit :=
  updates.filterMap fun update => update.2.map (cutEdit update.1)

/-- The options of one package, whose paths fit into the buffer. -/
def InPackage (name : CString) (updates : List (OptionPath × Option CString)) : Prop :=
  ∀ update ∈ updates, update.1.packageName = name ∧ update.1.text.length ≤ 255

@[simp] theorem cutEdits_some (path : OptionPath) (value : CString)
    (updates : List (OptionPath × Option CString)) :
    cutEdits ((path, some value) :: updates) = cutEdit path value :: cutEdits updates := rfl

/-- The printed path ends within the value. -/
theorem copyTo_text {path : OptionPath} (h : path.text.length ≤ 255) (value : CString) :
    copyTo 256 (path.text ++ value) = path.text ++ value.take (255 - path.text.length) := by
  show (path.text ++ value).take 255 = _
  rw [List.take_append, List.take_of_length_le h]

variable {start w : World} {name : CString} {edits : List Edit} {n : ℕ}

/-- **One option**: its two calls succeed and the edit is added, or nothing is changed. -/
theorem setOption_cases (h : Editing start name edits n w) {path : OptionPath}
    (hname : path.packageName = name) (hpath : path.text.length ≤ 255) (value : CString) :
    (∃ w', setOption w path value = (w', none) ∧ start.SameStore w' ∧
        ¬ start.CallsSucceed (n + 2)) ∨
      ∃ w' ptr, setOption w path value = (w', some ptr) ∧ ptr.packageName = name ∧
        Editing start name (edits ++ [cutEdit path value]) (n + 2) w' ∧
          (w'.loaded name).isSome = true := by
  unfold setOption
  rw [copyTo_text hpath]
  rcases h.lookup hname (value.take (255 - path.text.length)) with
    ⟨w₁, hlookup, hstore, hfail⟩ | ⟨w₁, hlookup, hedit, hloaded⟩
  · rw [hlookup]
    exact Or.inl ⟨w₁, rfl, hstore, fun hall => hfail (hall.mono (by omega))⟩
  · rw [hlookup]
    dsimp only
    rcases hedit.set hloaded path.sectionName path.optionName
        (value.take (255 - path.text.length)) with
      ⟨w₂, hset, hstore, hfail⟩ | ⟨w₂, hset, hedit', hloaded'⟩
    · rw [hset]
      exact Or.inl ⟨w₂, rfl, hstore, hfail⟩
    · rw [hset]
      exact Or.inr ⟨w₂, _, rfl, rfl, hedit', hloaded'⟩

/-- **The options**, one after another: all calls succeed and all edits are made, or nothing is
changed. -/
theorem setEach_cases {updates : List (OptionPath × Option CString)} (hin : InPackage name updates)
    (h : Editing start name edits n w) {ptr : Option Ptr}
    (hptr : ∀ p, ptr = some p → p.packageName = name ∧ (w.loaded name).isSome = true) :
    (∃ w', setEach w ptr updates = (w', none) ∧ start.SameStore w' ∧
        ¬ start.CallsSucceed (n + 2 * (cutEdits updates).length)) ∨
      ∃ w' ptr', setEach w ptr updates = (w', some ptr') ∧
        Editing start name (edits ++ cutEdits updates) (n + 2 * (cutEdits updates).length) w' ∧
        (∀ p, ptr' = some p → p.packageName = name ∧ (w'.loaded name).isSome = true) ∧
        (ptr' = none ↔ ptr = none ∧ cutEdits updates = []) := by
  induction updates generalizing w ptr edits n with
  | nil =>
      refine Or.inr ⟨w, ptr, rfl, ?_, hptr, ?_⟩
      · rw [cutEdits, List.filterMap_nil, List.append_nil]
        exact h
      · exact (and_iff_left rfl).symm
  | cons update updates ih =>
      have hrest : InPackage name updates := fun u hu => hin u (List.mem_cons_of_mem update hu)
      obtain ⟨path, value⟩ := update
      cases value with
      | none => exact ih hrest h hptr
      | some value =>
          obtain ⟨hname, hpath⟩ := hin _ List.mem_cons_self
          have hlen : n + 2 * (cutEdits ((path, some value) :: updates)).length =
              n + 2 + 2 * (cutEdits updates).length := by
            rw [cutEdits_some, List.length_cons]
            omega
          rw [hlen]
          unfold setEach
          rcases setOption_cases h hname hpath value with
            ⟨w₁, hset, hstore, hfail⟩ | ⟨w₁, p, hset, hp, hedit, hloaded⟩
          · rw [hset]
            exact Or.inl ⟨w₁, rfl, hstore, fun hall => hfail (hall.mono (by omega))⟩
          · rw [hset]
            dsimp only
            -- the pointer of the last option set is the one that is saved
            have hptr₁ : ∀ q, some p = some q →
                q.packageName = name ∧ (w₁.loaded name).isSome = true := by
              rintro q ⟨⟩
              exact ⟨hp, hloaded⟩
            rcases ih hrest hedit hptr₁ with
              hfailed | ⟨w₂, ptr', heach, hedit', hptr', hnone⟩
            · exact Or.inl hfailed
            · refine Or.inr ⟨w₂, ptr', heach, ?_, hptr', ?_⟩
              · rw [cutEdits_some, List.append_cons]
                exact hedit'
              · rw [hnone]
                simp

/-! ## How a setter ends -/

/-- `n` options are set, everything up to the commit succeeds, and the commit fails. -/
def CommitAloneFails (w : World) (n : ℕ) : Prop :=
  0 < n ∧ w.CallsSucceed (2 * n + 2) ∧ w.succeeds (w.calls + (2 * n + 2)) = false

/-- What a commit makes of the disk. -/
structure Committed (start : World) (name : CString) (edits : List Edit) (w : World) : Prop where
  committed : w.committed = Function.update start.committed name
    ((start.load name).contents.fold edits)
  pending : w.pending = Function.update start.pending name []

/-- The ways `updateOptions` ends: a call before the commit fails, there is nothing to set, the
commit fails, or the edits are committed. -/
inductive Outcome (start : World) (name : CString) (edits : List Edit) (noChange : ℤ) :
    World × ℤ → Prop where
  | failed {w : World} (hfail : ¬ start.CallsSucceed (2 * edits.length + 2))
      (hstore : start.SameStore w) : Outcome start name edits noChange (w, -1)
  | idle {w : World} (hedits : edits = []) (hstore : start.SameStore w) :
      Outcome start name edits noChange (w, noChange)
  | commitFailed {w : World} (hfail : CommitAloneFails start edits.length)
      (hcommitted : w.committed = start.committed)
      (hpending : w.pending = Function.update start.pending name (start.pending name ++ edits)) :
      Outcome start name edits noChange (w, -1)
  | committed {w : World} (hedits : edits ≠ [])
      (hcall : start.succeeds (start.calls + (2 * edits.length + 2)) = true)
      (hdisk : Committed start name edits w) : Outcome start name edits noChange (w, 0)

theorem updateOptions_outcome (start : World) (noChange : ℤ)
    {updates : List (OptionPath × Option CString)} (hin : InPackage name updates) :
    Outcome start name (cutEdits updates) noChange (updateOptions start noChange updates) := by
  unfold updateOptions
  rcases allocContext_cases start name with ⟨w₀, halloc, hstore, hfail⟩ | ⟨w₀, halloc, hedit⟩
  · rw [halloc]
    exact .failed (fun hall => hfail (hall.mono (by omega))) hstore
  rw [halloc]
  dsimp only
  -- no option is set yet
  have hnone : ∀ p, (none : Option Ptr) = some p →
      p.packageName = name ∧ (w₀.loaded name).isSome = true := by
    intro p hp
    cases hp
  rcases setEach_cases hin hedit hnone with
    ⟨w₁, heach, hstore, hfail⟩ | ⟨w₁, ptr, heach, hedit₁, hptr, hidle⟩
  · rw [heach]
    exact .failed (fun hall => hfail (hall.mono (by omega))) hstore
  rw [heach]
  rw [List.nil_append] at hedit₁
  cases ptr with
  | none => exact .idle (hidle.mp rfl).2 hedit₁.store
  | some p =>
      obtain ⟨rfl, hloaded⟩ := hptr p rfl
      -- a pointer is left only where an option was set
      have hedits : cutEdits updates ≠ [] := by
        intro hnil
        cases hidle.mpr ⟨rfl, hnil⟩
      dsimp only
      unfold saveAndCommit
      rcases hedit₁.save hloaded with ⟨w₂, hsave, hstore, hfail⟩ | ⟨w₂, hsave, hsaved⟩
      · rw [hsave]
        exact .failed (fun hall => hfail (hall.mono (by omega))) hstore
      rw [hsave]
      dsimp only
      have hcalls : 1 + 2 * (cutEdits updates).length + 1 = 2 * (cutEdits updates).length + 2 := by
        omega
      rw [hcalls] at hsaved
      rcases hsaved.commit with
        ⟨w₃, hcommit, hcall, hcommitted, hpending⟩ | ⟨w₃, hcommit, hcall, hcommitted, hpending⟩
      · rw [hcommit]
        exact .commitFailed ⟨List.length_pos_iff.mpr hedits, hsaved.succeeded, hcall⟩ hcommitted hpending
      · rw [hcommit]
        exact .committed hedits hcall ⟨hcommitted, hpending⟩

/-! ## Failures -/

/-- A setter that returns -1 has left the disk as it was. -/
def FailureAtomic (start : World) (result : World × ℤ) : Prop :=
  result.2 = -1 → start.SameStore result.1

theorem Outcome.failureAtomic_iff {noChange : ℤ} {result : World × ℤ}
    (h : Outcome start name edits noChange result) :
    FailureAtomic start result ↔ ¬ CommitAloneFails start edits.length := by
  cases h with
  | failed hfail hstore => exact iff_of_true (fun _ => hstore) fun h => hfail h.2.1
  | idle hedits hstore =>
      refine iff_of_true (fun _ => hstore) fun h => ?_
      rw [hedits] at h
      exact absurd h.1 (Nat.lt_irrefl 0)
  | commitFailed hfail hcommitted hpending =>
      refine iff_of_false (fun h => ?_) fun h => h hfail
      -- the saved edits are still in the pending delta
      have hsame := congrFun (h rfl).2 name
      rw [hpending, Function.update_self, List.append_right_eq_self] at hsame
      exact List.length_pos_iff.mp hfail.1 hsame
  | committed hedits hcall hdisk =>
      refine iff_of_true (fun h => ?_) fun h => ?_
      · cases h
      · rw [h.2.2] at hcall
        cases hcall

theorem inPackage_nil (name : CString) : InPackage name [] := fun _ h => nomatch h

theorem inPackage_lan (ipaddr netmask : Option CString) :
    InPackage (str "network") [(lanIpaddr, ipaddr), (lanNetmask, netmask)] := by
  simp only [InPackage, List.forall_mem_cons]
  exact ⟨⟨rfl, by decide⟩, ⟨rfl, by decide⟩, inPackage_nil _⟩

theorem inPackage_dhcp (ignore startIp limit leasetime : Option CString) :
    InPackage (str "dhcp") [(dhcpIgnore, ignore), (dhcpStart, startIp), (dhcpLimit, limit),
      (dhcpLeasetime, leasetime)] := by
  simp only [InPackage, List.forall_mem_cons]
  exact ⟨⟨rfl, by decide⟩, ⟨rfl, by decide⟩, ⟨rfl, by decide⟩, ⟨rfl, by decide⟩, inPackage_nil _⟩

theorem length_cutEdits (updates : List (OptionPath × Option CString)) :
    (cutEdits updates).length = (updates.filter fun update => update.2.isSome).length := by
  induction updates with
  | nil => rfl
  | cons update updates ih =>
      obtain ⟨path, value⟩ := update
      cases value with
      | none => exact ih
      | some value => exact congrArg (· + 1) ih

/-- The number of options `set_lan_ip_config` sets. -/
def lanCount (ipaddr netmask : Option CString) : ℕ :=
  if ipaddr.isSome ∧ netmask.isSome then 2 else 0

/-- The number of options `set_dhcp_lan_config` sets. -/
def dhcpCount (startIp limit leasetime : Option CString) (dhcpEnabledStatus : ℤ) : ℕ :=
  ([ignoreValue dhcpEnabledStatus, startIp, limit, leasetime].filter Option.isSome).length

/-- **When a setter that fails leaves the disk as it was**: whenever it is not the commit alone
that fails. -/
theorem uci_setters_atomic_iff (w : World) :
    (∀ ipaddr netmask, FailureAtomic w (setLanIpConfig w ipaddr netmask) ↔
        ¬ CommitAloneFails w (lanCount ipaddr netmask)) ∧
      ∀ startIp limit leasetime dhcpEnabledStatus,
        FailureAtomic w (setDhcpLanConfig w startIp limit leasetime dhcpEnabledStatus) ↔
          ¬ CommitAloneFails w (dhcpCount startIp limit leasetime dhcpEnabledStatus) := by
  constructor
  · intro ipaddr netmask
    -- a NULL argument is refused before the first call
    have hrefused : FailureAtomic w (w, -1) ↔ ¬ CommitAloneFails w 0 :=
      iff_of_true (fun _ => ⟨rfl, rfl⟩) fun h => absurd h.1 (Nat.lt_irrefl 0)
    cases ipaddr with
    | none => exact hrefused
    | some ipaddr =>
        cases netmask with
        | none => exact hrefused
        | some netmask => exact (updateOptions_outcome w (-1) (inPackage_lan _ _)).failureAtomic_iff
  · intro startIp limit leasetime dhcpEnabledStatus
    have hcount : dhcpCount startIp limit leasetime dhcpEnabledStatus =
        (cutEdits [(dhcpIgnore, ignoreValue dhcpEnabledStatus), (dhcpStart, startIp),
          (dhcpLimit, limit), (dhcpLeasetime, leasetime)]).length := by
      rw [length_cutEdits]
      cases h : ignoreValue dhcpEnabledStatus <;> cases startIp <;> cases limit <;>
        cases leasetime <;> simp [dhcpCount, h]
    rw [hcount]
    exact (updateOptions_outcome w 0 (inPackage_dhcp _ _ _ _)).failureAtomic_iff

/-- An empty store in which the calls with the given numbers fail. -/
def emptyStore (failing : List ℕ) : World where
  committed := fun _ _ => none
  pending := fun _ => []
  loaded := fun _ => none
  succeeds := fun i => !failing.contains i
  calls := 0

/-- The seventh call is the commit. -/
theorem failed_commit_leaves_edits :
    ¬ ((∀ w ipaddr netmask, FailureAtomic w (setLanIpConfig w ipaddr netmask)) ∧
      ∀ w startIp limit leasetime dhcpEnabledStatus,
        FailureAtomic w (setDhcpLanConfig w startIp limit leasetime dhcpEnabledStatus)) := by
  rintro ⟨h, -⟩
  have hpending := congrFun (h (emptyStore [6]) (some (str "10.0.0.1")) (some (str "255.0.0.0"))
    (by decide +kernel)).2 (str "network")
  revert hpending
  decide +kernel

/-! ## Successes -/

/-- The committed value of an option. -/
def get (w : World) (path : OptionPath) : Option CString := w.committed path.packageName path.key

/-- An option reads the same from the store, and if no staged edit was waiting for it, its
committed value is the same. -/
def SameOption (w w' : World) (name : CString) (key : Key) : Prop :=
  (w'.load name).contents key = (w.load name).contents key ∧
    ((∀ e ∈ w.pending name, e.key ≠ key) → w'.committed name key = w.committed name key)

/-- The options that are set have their values, all others are the same. -/
structure Updated (w w' : World) (updates : List (OptionPath × Option CString)) : Prop where
  values : ∀ update ∈ updates, ∀ value, update.2 = some value → get w' update.1 = some value
  others : ∀ name key,
    (∀ update ∈ updates, (name, key) = (update.1.packageName, update.1.key) → update.2 = none) →
      SameOption w w' name key

theorem sameOption_of_sameStore {w w' : World} (h : w.SameStore w') (name : CString) (key : Key) :
    SameOption w w' name key := by
  refine ⟨?_, fun _ => by rw [h.1]⟩
  rw [World.load, World.load, h.1, h.2]

theorem mem_cutEdits {updates : List (OptionPath × Option CString)} {edit : Edit} :
    edit ∈ cutEdits updates ↔
      ∃ update ∈ updates, ∃ value, update.2 = some value ∧ edit = cutEdit update.1 value := by
  rw [cutEdits, List.mem_filterMap]
  constructor
  · rintro ⟨update, hmem, hedit⟩
    obtain ⟨value, hvalue, rfl⟩ := Option.map_eq_some_iff.mp hedit
    exact ⟨update, hmem, value, hvalue, rfl⟩
  · rintro ⟨update, hmem, value, hvalue, rfl⟩
    exact ⟨update, hmem, by rw [hvalue]; rfl⟩

theorem cutEdits_keys_sublist (updates : List (OptionPath × Option CString)) :
    ((cutEdits updates).map Edit.key).Sublist (updates.map fun update => update.1.key) := by
  induction updates with
  | nil => exact List.Sublist.slnil
  | cons update updates ih =>
      obtain ⟨path, value⟩ := update
      cases value with
      | none => exact ih.cons _
      | some value => exact ih.cons_cons _

/-- An option that is edited once is committed with the value of the edit. -/
theorem Committed.get_eq (h : Committed start name edits w) (hkeys : (edits.map Edit.key).Nodup)
    {path : OptionPath} (hname : path.packageName = name) {value : CString}
    (hedit : cutEdit path value ∈ edits) :
    get w path = some (value.take (255 - path.text.length)) := by
  rw [get, hname, h.committed, Function.update_self]
  exact fold_of_mem hkeys hedit _

/-- An option that is not edited is the same. -/
theorem Committed.sameOption (h : Committed start name edits w) {name' : CString} {key : Key}
    (hkey : name' = name → ∀ e ∈ edits, e.key ≠ key) : SameOption start w name' key := by
  by_cases hname : name' = name
  · subst hname
    have hcontents : w.committed name' key = (start.load name').contents key := by
      rw [h.committed, Function.update_self, fold_of_not_mem (hkey rfl)]
    constructor
    · rw [← hcontents, World.load, h.pending, Function.update_self]
      rfl
    · intro hstaged
      rw [hcontents]
      exact fold_of_not_mem hstaged _
  · constructor
    · rw [World.load, World.load, h.committed, h.pending, Function.update_of_ne hname,
        Function.update_of_ne hname]
    · intro _
      rw [h.committed, Function.update_of_ne hname]

/-- **A success is one** exactly when every path with its value fits into the buffer. -/
theorem Outcome.updated_iff {updates : List (OptionPath × Option CString)} {noChange : ℤ}
    {result : World × ℤ} (h : Outcome start name (cutEdits updates) noChange result)
    (hin : InPackage name updates) (hnodup : (updates.map fun update => update.1.key).Nodup)
    (hzero : result.2 = 0) :
    Updated start result.1 updates ↔
      ∀ update ∈ updates, ∀ value, update.2 = some value →
        value.length ≤ 255 - update.1.text.length := by
  cases h with
  | failed hfail hstore => cases hzero
  | commitFailed hfail hcommitted hpending => cases hzero
  | idle hedits hstore =>
      have hnone : ∀ update ∈ updates, ∀ value, update.2 ≠ some value := by
        intro update hmem value hvalue
        have hedit := mem_cutEdits.mpr ⟨update, hmem, value, hvalue, rfl⟩
        rw [hedits] at hedit
        cases hedit
      constructor
      · intro _ update hmem value hvalue
        exact absurd hvalue (hnone update hmem value)
      · intro _
        refine ⟨fun update hmem value hvalue => absurd hvalue (hnone update hmem value), ?_⟩
        intro name' key _
        exact sameOption_of_sameStore hstore name' key
  | @committed w hedits hcall hdisk =>
      have hget : ∀ update ∈ updates, ∀ value, update.2 = some value →
          get w update.1 = some (value.take (255 - update.1.text.length)) := by
        intro update hmem value hvalue
        exact hdisk.get_eq (hnodup.sublist (cutEdits_keys_sublist updates)) (hin update hmem).1
          (mem_cutEdits.mpr ⟨update, hmem, value, hvalue, rfl⟩)
      constructor
      · intro hupdated update hmem value hvalue
        have hsame := hupdated.values update hmem value hvalue
        rw [hget update hmem value hvalue, Option.some.injEq, List.take_eq_self_iff] at hsame
        exact hsame
      · intro hfits
        constructor
        · intro update hmem value hvalue
          rw [hget update hmem value hvalue, List.take_of_length_le (hfits update hmem value hvalue)]
        · intro name' key hunset
          apply hdisk.sameOption
          -- no edit of the package is one of this option
          rintro rfl e he rfl
          obtain ⟨update, hmem, value, hvalue, rfl⟩ := mem_cutEdits.mp he
          have hplace := hunset update hmem (by rw [(hin update hmem).1]; rfl)
          rw [hvalue] at hplace
          cases hplace

/-- `network.lan` has the address and the netmask, and no other option is changed. -/
structure LanConfigured (w w' : World) (ipaddr netmask : CString) : Prop where
  hasIpaddr : get w' lanIpaddr = some ipaddr
  hasNetmask : get w' lanNetmask = some netmask
  others : ∀ name key, (name, key) ≠ (lanIpaddr.packageName, lanIpaddr.key) →
    (name, key) ≠ (lanNetmask.packageName, lanNetmask.key) → SameOption w w' name key

/-- `dhcp.lan` has what was given, `ignore` as the status says, and no other option is
changed. -/
structure DhcpConfigured (w w' : World) (startIp limit leasetime : Option CString)
    (dhcpEnabledStatus : ℤ) : Prop where
  hasStart : ∀ value, startIp = some value → get w' dhcpStart = some value
  hasLimit : ∀ value, limit = some value → get w' dhcpLimit = some value
  hasLeasetime : ∀ value, leasetime = some value → get w' dhcpLeasetime = some value
  enabled : dhcpEnabledStatus = 1 → get w' dhcpIgnore = some (str "0")
  disabled : dhcpEnabledStatus = 0 → get w' dhcpIgnore = some (str "1")
  others : ∀ name key,
    ((name, key) = (dhcpStart.packageName, dhcpStart.key) → startIp = none) →
    ((name, key) = (dhcpLimit.packageName, dhcpLimit.key) → limit = none) →
    ((name, key) = (dhcpLeasetime.packageName, dhcpLeasetime.key) → leasetime = none) →
    ((name, key) = (dhcpIgnore.packageName, dhcpIgnore.key) →
      dhcpEnabledStatus ≠ 1 ∧ dhcpEnabledStatus ≠ 0) →
    SameOption w w' name key

theorem ignoreValue_eq_none_iff {dhcpEnabledStatus : ℤ} :
    ignoreValue dhcpEnabledStatus = none ↔ dhcpEnabledStatus ≠ 1 ∧ dhcpEnabledStatus ≠ 0 := by
  by_cases h : dhcpEnabledStatus = 1 ∨ dhcpEnabledStatus = 0
  · rw [ignoreValue, if_pos h]
    exact iff_of_false (Option.some_ne_none _) fun hne => h.elim hne.1 hne.2
  · rw [ignoreValue, if_neg h]
    exact iff_of_true rfl (not_or.mp h)

theorem lanConfigured_iff {w w' : World} {ipaddr netmask : CString} :
    LanConfigured w w' ipaddr netmask ↔
      Updated w w' [(lanIpaddr, some ipaddr), (lanNetmask, some netmask)] := by
  constructor
  · rintro ⟨hipaddr, hnetmask, hothers⟩
    constructor
    · simp only [List.forall_mem_cons]
      refine ⟨?_, ?_, fun _ h => nomatch h⟩
      · rintro _ ⟨⟩
        exact hipaddr
      · rintro _ ⟨⟩
        exact hnetmask
    · intro name key hunset
      simp only [List.forall_mem_cons] at hunset
      exact hothers name key (fun h => nomatch hunset.1 h) fun h => nomatch hunset.2.1 h
  · rintro ⟨hvalues, hothers⟩
    simp only [List.forall_mem_cons] at hvalues hothers
    refine ⟨hvalues.1 _ rfl, hvalues.2.1 _ rfl, ?_⟩
    intro name key hipaddr hnetmask
    exact hothers name key ⟨fun h => absurd h hipaddr, fun h => absurd h hnetmask,
      fun _ h => nomatch h⟩

theorem dhcpConfigured_iff {w w' : World} {startIp limit leasetime : Option CString}
    {dhcpEnabledStatus : ℤ} :
    DhcpConfigured w w' startIp limit leasetime dhcpEnabledStatus ↔
      Updated w w' [(dhcpIgnore, ignoreValue dhcpEnabledStatus), (dhcpStart, startIp),
        (dhcpLimit, limit), (dhcpLeasetime, leasetime)] := by
  constructor
  · rintro ⟨hstart, hlimit, hleasetime, henabled, hdisabled, hothers⟩
    constructor
    · simp only [List.forall_mem_cons]
      refine ⟨?_, hstart, hlimit, hleasetime, fun _ h => nomatch h⟩
      intro value hvalue
      unfold ignoreValue at hvalue
      split_ifs at hvalue with hstatus hone
      · cases hvalue
        exact henabled hone
      · cases hvalue
        exact hdisabled (hstatus.resolve_left hone)
    · intro name key hunset
      simp only [List.forall_mem_cons, ignoreValue_eq_none_iff] at hunset
      obtain ⟨hignore, hstart', hlimit', hleasetime', -⟩ := hunset
      exact hothers name key hstart' hlimit' hleasetime' hignore
  · rintro ⟨hvalues, hothers⟩
    simp only [List.forall_mem_cons, ignoreValue_eq_none_iff] at hvalues hothers
    obtain ⟨hignore, hstart, hlimit, hleasetime, -⟩ := hvalues
    refine ⟨hstart, hlimit, hleasetime, ?_, ?_, ?_⟩
    · rintro rfl
      exact hignore _ rfl
    · rintro rfl
      exact hignore _ rfl
    · intro name key hstart' hlimit' hleasetime' hignore'
      exact hothers name key ⟨hignore', hstart', hlimit', hleasetime', fun _ h => nomatch h⟩

/-- **When a setter that succeeds has done what it is for**: whenever no path with its value was
cut at 255 bytes. -/
theorem uci_setters_exact_iff (w : World) :
    (∀ ipaddr netmask, (setLanIpConfig w (some ipaddr) (some netmask)).2 = 0 →
      (LanConfigured w (setLanIpConfig w (some ipaddr) (some netmask)).1 ipaddr netmask ↔
        ipaddr.length ≤ 236 ∧ netmask.length ≤ 235)) ∧
      ∀ startIp limit leasetime dhcpEnabledStatus,
        (setDhcpLanConfig w startIp limit leasetime dhcpEnabledStatus).2 = 0 →
          (DhcpConfigured w (setDhcpLanConfig w startIp limit leasetime dhcpEnabledStatus).1
              startIp limit leasetime dhcpEnabledStatus ↔
            (∀ value, startIp = some value → value.length ≤ 240) ∧
            (∀ value, limit = some value → value.length ≤ 240) ∧
            ∀ value, leasetime = some value → value.length ≤ 236) := by
  constructor
  · intro ipaddr netmask hzero
    have hin := inPackage_lan (some ipaddr) (some netmask)
    have houtcome : Outcome w (str "network") _ (-1)
        (setLanIpConfig w (some ipaddr) (some netmask)) := updateOptions_outcome w (-1) hin
    have hkeys : [lanIpaddr.key, lanNetmask.key].Nodup := by decide
    rw [lanConfigured_iff, houtcome.updated_iff hin hkeys hzero]
    simp only [List.forall_mem_cons]
    constructor
    · rintro ⟨hipaddr, hnetmask, -⟩
      exact ⟨hipaddr _ rfl, hnetmask _ rfl⟩
    · rintro ⟨hipaddr, hnetmask⟩
      refine ⟨?_, ?_, fun _ h => nomatch h⟩
      · rintro _ ⟨⟩
        exact hipaddr
      · rintro _ ⟨⟩
        exact hnetmask
  · intro startIp limit leasetime dhcpEnabledStatus hzero
    have hin := inPackage_dhcp (ignoreValue dhcpEnabledStatus) startIp limit leasetime
    have houtcome : Outcome w (str "dhcp") _ 0
        (setDhcpLanConfig w startIp limit leasetime dhcpEnabledStatus) :=
      updateOptions_outcome w 0 hin
    have hkeys : [dhcpIgnore.key, dhcpStart.key, dhcpLimit.key, dhcpLeasetime.key].Nodup := by
      decide
    rw [dhcpConfigured_iff, houtcome.updated_iff hin hkeys hzero]
    simp only [List.forall_mem_cons]
    constructor
    · rintro ⟨-, hstart, hlimit, hleasetime, -⟩
      exact ⟨hstart, hlimit, hleasetime⟩
    · rintro ⟨hstart, hlimit, hleasetime⟩
      refine ⟨?_, hstart, hlimit, hleasetime, fun _ h => nomatch h⟩
      -- the value of `ignore` is one digit
      intro value hvalue
      unfold ignoreValue at hvalue
      split_ifs at hvalue <;> cases hvalue <;> decide

/-- Both setters, on an empty store where every call succeeds. -/
theorem uci_setters_exact_on_empty_store :
    LanConfigured (emptyStore [])
        (setLanIpConfig (emptyStore []) (some (str "10.0.0.1")) (some (str "255.0.0.0"))).1
        (str "10.0.0.1") (str "255.0.0.0") ∧
      DhcpConfigured (emptyStore [])
        (setDhcpLanConfig (emptyStore []) (some (str "100")) none (some (str "12h")) 1).1
        (some (str "100")) none (some (str "12h")) 1 := by
  constructor
  · exact ((uci_setters_exact_iff _).1 _ _ (by decide +kernel)).mpr ⟨by decide, by decide⟩
  · refine ((uci_setters_exact_iff _).2 _ _ _ _ (by decide +kernel)).mpr ⟨?_, ?_, ?_⟩
    · rintro _ ⟨⟩
      decide
    · rintro _ ⟨⟩
    · rintro _ ⟨⟩
      decide

/-- An address of 237 bytes is cut, and the setter succeeds. -/
theorem long_address_is_cut :
    ¬ ∀ w ipaddr netmask, (setLanIpConfig w (some ipaddr) (some netmask)).2 = 0 →
      LanConfigured w (setLanIpConfig w (some ipaddr) (some netmask)).1 ipaddr netmask := by
  intro h
  have hipaddr := (h (emptyStore []) (List.replicate 237 49) (str "255.0.0.0")
    (by decide +kernel)).hasIpaddr
  revert hipaddr
  decide +kernel

end UciSetters
