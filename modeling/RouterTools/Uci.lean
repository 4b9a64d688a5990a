/-
# A store with staged changes

What the configuration library `libuci` is assumed to do.  A package has its committed
contents and, on disk beside them, a pending delta: the edits that were saved and not
committed yet.  A context holds packages in memory; a package is loaded with its pending
delta applied, edited there, and forgotten when the context is freed.  `uci_save` appends
the edits to the pending delta, `uci_commit` folds the pending delta into the committed
contents and clears it.

Every call may fail, and then it has no effect: the `n`-th call since the start of the
world succeeds if `succeeds n` says so.
-/
import Mathlib.Logic.Function.Basic
import RouterTools.CString

namespace Uci

open CString

/-! ## The store -/

/-- The section and the name of an option in its package. -/
abbrev Key := CString × CString

/-- The options of a package. -/
abbrev Contents := Key → Option CString

/-- An option is set to a value. -/
structure Edit where
  key : Key
  value : CString
  deriving DecidableEq

/-- The contents after an edit. -/
def Contents.set (contents : Contents) (edit : Edit) : Contents :=
  Function.update contents edit.key (some edit.value)

/-- The contents after edits, one after another. -/
def Contents.fold (contents : Contents) (edits : List Edit) : Contents :=
  edits.foldl Contents.set contents

/-- A package in memory, with the edits that are not saved. -/
structure Package where
  contents : Contents
  delta : List Edit

/-- The store on disk, the packages loaded into the context, and which calls succeed. -/
structure World where
  committed : CString → Contents
  pending : CString → List Edit
  loaded : CString → Option Package
  succeeds : ℕ → Bool
  calls : ℕ

/-- `struct uci_ptr`, after the lookup of an option with a value. -/
structure Ptr where
  packageName : CString
  sectionName : CString
  optionName : CString
  value : Option CString
  deriving DecidableEq

/-- `'.'`. -/
def dot : UInt8 := 46

/-- `'='`. -/
def equals : UInt8 := 61

/-- The text before the first `b`, and the text after it. -/
def splitFirst (b : UInt8) (s : CString) : CString × Option CString :=
  match s.dropWhile fun c => c != b with
  | [] => (s.takeWhile fun c => c != b, none)
  | _ :: rest => (s.takeWhile fun c => c != b, some rest)

/-- `package.section.option=value`: the value is what follows the first `=`. -/
def parsePtr (s : CString) : Option Ptr :=
  let (path, value) := splitFirst equals s
  match splitFirst dot path with
  | (_, none) => none
  | (packageName, some rest) =>
      match splitFirst dot rest with
      | (_, none) => none
      | (sectionName, some optionName) => some ⟨packageName, sectionName, optionName, value⟩

/-! ## The calls -/

/-- The next call is made; does it succeed? -/
def World.call (w : World) : World × Bool := ({ w with calls := w.calls + 1 }, w.succeeds w.calls)

/-- A package as it is loaded: the pending delta applied. -/
def World.load (w : World) (name : CString) : Package :=
  ⟨(w.committed name).fold (w.pending name), []⟩

/-- `uci_alloc_context`; `false` is NULL. -/
def allocContext (w : World) : World × Bool :=
  match w.call with
  | (w, true) => ({ w with loaded := fun _ => none }, true)
  | (w, false) => (w, false)

/-- `uci_free_context`. -/
def freeContext (w : World) : World := { w with loaded := fun _ => none }

/-- `uci_lookup_ptr`, which loads the package if it is not loaded; `none` is an error. -/
def lookupPtr (w : World) (s : CString) : World × Option Ptr :=
  match w.call with
  | (w, false) => (w, none)
  | (w, true) =>
      match parsePtr s with
      | none => (w, none)
      | some ptr =>
          ({ w with
              loaded := Function.update w.loaded ptr.packageName
                (some ((w.loaded ptr.packageName).getD (w.load ptr.packageName))) }, some ptr)

/-- `uci_set`; `true` is `UCI_OK`. -/
def set (w : World) (ptr : Ptr) : World × Bool :=
  match w.call with
  | (w, false) => (w, false)
  | (w, true) =>
      match w.loaded ptr.packageName, ptr.value with
      | some pkg, some value =>
          let edit : Edit := ⟨(ptr.sectionName, ptr.optionName), value⟩
          ({ w with
              loaded := Function.update w.loaded ptr.packageName
                (some ⟨pkg.contents.set edit, pkg.delta ++ [edit]⟩) }, true)
      | _, _ => (w, false)

/-- `uci_save`. -/
def save (w : World) (name : CString) : World × Bool :=
  match w.call with
  | (w, false) => (w, false)
  | (w, true) =>
      match w.loaded name with
      | none => (w, false)
      | some pkg =>
          ({ w with
              pending := Function.update w.pending name (w.pending name ++ pkg.delta)
              loaded := Function.update w.loaded name (some { pkg with delta := [] }) }, true)

/-- `uci_commit`. -/
def commit (w : World) (name : CString) : World × Bool :=
  match w.call with
  | (w, false) => (w, false)
  | (w, true) =>
      ({ w with
          committed := Function.update w.committed name
            ((w.committed name).fold (w.pending name))
          pending := Function.update w.pending name [] }, true)

/-! ## Edits -/

theorem fold_cons (contents : Contents) (edit : Edit) (edits : List Edit) :
    contents.fold (edit :: edits) = (contents.set edit).fold edits := rfl

theorem fold_append (contents : Contents) (edits edits' : List Edit) :
    contents.fold (edits ++ edits') = (contents.fold edits).fold edits' :=
  List.foldl_append

/-- An option that is not edited keeps its value. -/
theorem fold_of_not_mem {edits : List Edit} {key : Key} (h : ∀ e ∈ edits, e.key ≠ key)
    (contents : Contents) : contents.fold edits key = contents key := by
  induction edits generalizing contents with
  | nil => rfl
  | cons edit edits ih =>
      have hedit : edit.key ≠ key := h edit List.mem_cons_self
      rw [fold_cons, ih fun e he => h e (List.mem_cons_of_mem edit he)]
      exact Function.update_of_ne hedit.symm _ _

/-- An option that is edited once has the value of the edit. -/
theorem fold_of_mem {edits : List Edit} (hnodup : (edits.map Edit.key).Nodup) {edit : Edit}
    (h : edit ∈ edits) (contents : Contents) : contents.fold edits edit.key = some edit.value := by
  induction edits generalizing contents with
  | nil => cases h
  | cons first edits ih =>
      rw [List.map_cons, List.nodup_cons] at hnodup
      rw [fold_cons]
      rcases List.mem_cons.mp h with rfl | h
      · rw [fold_of_not_mem fun e he heq => hnodup.1 (List.mem_map.mpr ⟨e, he, heq⟩)]
        exact Function.update_self _ _ _
      · exact ih hnodup.2 h (contents.set first)

/-! ## Paths -/

theorem splitFirst_append {b : UInt8} {s : CString} (hs : b ∉ s) (rest : CString) :
    splitFirst b (s ++ b :: rest) = (s, some rest) := by
  have hall : ∀ c ∈ s, (c != b) = true := by
    intro c hc
    rw [bne_iff_ne]
    rintro rfl
    exact hs hc
  have hdrop : (b :: rest).dropWhile (fun c => c != b) = b :: rest :=
    List.dropWhile_cons_of_neg (by simp)
  have htake : (b :: rest).takeWhile (fun c => c != b) = [] :=
    List.takeWhile_cons_of_neg (by simp)
  rw [splitFirst, List.dropWhile_append_of_pos hall, List.takeWhile_append_of_pos hall, hdrop,
    htake, List.append_nil]

/-- Where an option stands: names that hold no separator. -/
structure OptionPath where
  packageName : CString
  sectionName : CString
  optionName : CString
  package_clean : dot ∉ packageName ∧ equals ∉ packageName := by decide
  section_clean : dot ∉ sectionName ∧ equals ∉ sectionName := by decide
  option_clean : dot ∉ optionName ∧ equals ∉ optionName := by decide

/-- `"package.section.option="`. -/
def OptionPath.text (path : OptionPath) : CString :=
  path.packageName ++ dot :: (path.sectionName ++ dot :: (path.optionName ++ [equals]))

/-- The key of the option. -/
def OptionPath.key (path : OptionPath) : Key := (path.sectionName, path.optionName)

/-- **A path with a value** is taken apart at its separators, whatever the value holds. -/
theorem parsePtr_text (path : OptionPath) (value : CString) :
    parsePtr (path.text ++ value) =
      some ⟨path.packageName, path.sectionName, path.optionName, some value⟩ := by
  obtain ⟨packageName, sectionName, optionName, ⟨hp, hpe⟩, ⟨hs, hse⟩, ho, hoe⟩ := path
  have hde : equals ≠ dot := by decide
  have hpath : equals ∉ packageName ++ dot :: (sectionName ++ dot :: optionName) := by
    simp only [List.mem_append, List.mem_cons, not_or]
    exact ⟨hpe, hde, hse, hde, hoe⟩
  have htext : OptionPath.text ⟨packageName, sectionName, optionName, ⟨hp, hpe⟩, ⟨hs, hse⟩, ho, hoe⟩ ++
      value = (packageName ++ dot :: (sectionName ++ dot :: optionName)) ++ equals :: value := by
    simp [OptionPath.text]
  rw [htext, parsePtr, splitFirst_append hpath]
  dsimp only
  rw [splitFirst_append hp]
  dsimp only
  rw [splitFirst_append hs]

/-! ## An editing context -/

/-- The next `n` calls all succeed. -/
def World.CallsSucceed (w : World) (n : ℕ) : Prop := ∀ i < n, w.succeeds (w.calls + i) = true

/-- What is on disk is the same. -/
def World.SameStore (w w' : World) : Prop := w'.committed = w.committed ∧ w'.pending = w.pending

/-- After `n` successful calls from `start` on, nothing is written yet and the package is in
memory with the edits, unless there are none. -/
structure Editing (start : World) (name : CString) (edits : List Edit) (n : ℕ) (w : World) :
    Prop where
  store : start.SameStore w
  succeeds : w.succeeds = start.succeeds
  calls : w.calls = start.calls + n
  succeeded : start.CallsSucceed n
  loaded : (w.loaded name).getD (start.load name) = ⟨(start.load name).contents.fold edits, edits⟩

theorem World.callsSucceed_succ {w : World} {n : ℕ} :
    w.CallsSucceed (n + 1) ↔ w.CallsSucceed n ∧ w.succeeds (w.calls + n) = true := by
  constructor
  · intro h
    exact ⟨fun i hi => h i (by omega), h n (by omega)⟩
  · rintro ⟨hbefore, hlast⟩ i hi
    rcases Nat.lt_succ_iff_lt_or_eq.mp hi with hi | rfl
    · exact hbefore i hi
    · exact hlast

theorem World.CallsSucceed.mono {w : World} {m n : ℕ} (h : w.CallsSucceed n) (hmn : m ≤ n) :
    w.CallsSucceed m :=
  fun i hi => h i (by omega)

variable {start : World} {name : CString} {edits : List Edit} {n : ℕ} {w : World}

theorem Editing.load_eq (h : Editing start name edits n w) : w.load = start.load := by
  funext name'
  rw [World.load, World.load, h.store.1, h.store.2]

/-- The next call finds the world's own answer. -/
theorem Editing.succeeds_eq (h : Editing start name edits n w) :
    w.succeeds w.calls = start.succeeds (start.calls + n) := by
  rw [h.succeeds, h.calls]

theorem Editing.callsSucceed_succ (h : Editing start name edits n w) :
    start.CallsSucceed (n + 1) ↔ w.succeeds w.calls = true := by
  rw [World.callsSucceed_succ, h.succeeds_eq]
  exact and_iff_right h.succeeded

theorem Editing.not_callsSucceed (h : Editing start name edits n w)
    (hcall : w.succeeds w.calls = false) : ¬ start.CallsSucceed (n + 1) := by
  rw [h.callsSucceed_succ, hcall]
  exact Bool.false_ne_true

theorem Editing.calls_succ (h : Editing start name edits n w) :
    w.calls + 1 = start.calls + (n + 1) := by
  rw [h.calls, Nat.add_assoc]

/-- A fresh context edits nothing. -/
theorem allocContext_cases (start : World) (name : CString) :
    (∃ w, allocContext start = (w, false) ∧ start.SameStore w ∧ ¬ start.CallsSucceed 1) ∨
      ∃ w, allocContext start = (w, true) ∧ Editing start name [] 1 w := by
  unfold allocContext World.call
  cases hcall : start.succeeds start.calls with
  | false =>
      refine Or.inl ⟨_, rfl, ⟨rfl, rfl⟩, fun h => ?_⟩
      have hfirst := h 0 Nat.one_pos
      rw [Nat.add_zero, hcall] at hfirst
      cases hfirst
  | true =>
      refine Or.inr ⟨_, rfl, ⟨rfl, rfl⟩, rfl, rfl, fun i hi => ?_, rfl⟩
      obtain rfl : i = 0 := by omega
      exact hcall

/-- A lookup fails and leaves the disk as it is, or loads the package. -/
theorem Editing.lookup (h : Editing start name edits n w) {path : OptionPath}
    (hname : path.packageName = name) (value : CString) :
    (∃ w', lookupPtr w (path.text ++ value) = (w', none) ∧ start.SameStore w' ∧
        ¬ start.CallsSucceed (n + 1)) ∨
      ∃ w', lookupPtr w (path.text ++ value) =
          (w', some ⟨name, path.sectionName, path.optionName, some value⟩) ∧
        Editing start name edits (n + 1) w' ∧ (w'.loaded name).isSome = true := by
  subst hname
  cases hcall : w.succeeds w.calls with
  | false =>
      simp only [lookupPtr, World.call, hcall]
      exact Or.inl ⟨_, rfl, h.store, h.not_callsSucceed hcall⟩
  | true =>
      simp only [lookupPtr, World.call, hcall, parsePtr_text]
      refine Or.inr ⟨_, rfl,
        ⟨h.store, h.succeeds, h.calls_succ, h.callsSucceed_succ.mpr hcall, ?_⟩, ?_⟩
      · dsimp only
        rw [Function.update_self, ← h.loaded, ← h.load_eq]
        rfl
      · dsimp only
        rw [Function.update_self]
        rfl

/-- A set fails and leaves the disk as it is, or adds its edit to the loaded package. -/
theorem Editing.set (h : Editing start name edits n w) (hloaded : (w.loaded name).isSome = true)
    (sectionName optionName value : CString) :
    (∃ w', set w ⟨name, sectionName, optionName, some value⟩ = (w', false) ∧ start.SameStore w' ∧
        ¬ start.CallsSucceed (n + 1)) ∨
      ∃ w', set w ⟨name, sectionName, optionName, some value⟩ = (w', true) ∧
        Editing start name (edits ++ [⟨(sectionName, optionName), value⟩]) (n + 1) w' ∧
          (w'.loaded name).isSome = true := by
  obtain ⟨pkg, hpkg⟩ := Option.isSome_iff_exists.mp hloaded
  have hedits := h.loaded
  rw [hpkg, Option.getD_some] at hedits
  subst hedits
  cases hcall : w.succeeds w.calls with
  | false =>
      simp only [Uci.set, World.call, hcall]
      exact Or.inl ⟨_, rfl, h.store, h.not_callsSucceed hcall⟩
  | true =>
      simp only [Uci.set, World.call, hcall, hpkg]
      refine Or.inr ⟨_, rfl,
        ⟨h.store, h.succeeds, h.calls_succ, h.callsSucceed_succ.mpr hcall, ?_⟩, ?_⟩
      · dsimp only
        rw [Function.update_self, fold_append]
        rfl
      · dsimp only
        rw [Function.update_self]
        rfl

/-- After `n` successful calls from `start` on, the edits of a package are saved. -/
structure Saved (start : World) (name : CString) (edits : List Edit) (n : ℕ) (w : World) :
    Prop where
  committed : w.committed = start.committed
  pending : w.pending = Function.update start.pending name (start.pending name ++ edits)
  succeeds : w.succeeds = start.succeeds
  calls : w.calls = start.calls + n
  succeeded : start.CallsSucceed n

/-- A save fails and leaves the disk as it is, or adds the edits to the pending delta. -/
theorem Editing.save (h : Editing start name edits n w) (hloaded : (w.loaded name).isSome = true) :
    (∃ w', save w name = (w', false) ∧ start.SameStore w' ∧ ¬ start.CallsSucceed (n + 1)) ∨
      ∃ w', save w name = (w', true) ∧ Saved start name edits (n + 1) w' := by
  obtain ⟨pkg, hpkg⟩ := Option.isSome_iff_exists.mp hloaded
  have hedits := h.loaded
  rw [hpkg, Option.getD_some] at hedits
  subst hedits
  cases hcall : w.succeeds w.calls with
  | false =>
      simp only [Uci.save, World.call, hcall]
      exact Or.inl ⟨_, rfl, h.store, h.not_callsSucceed hcall⟩
  | true =>
      simp only [Uci.save, World.call, hcall, hpkg]
      refine Or.inr ⟨_, rfl, h.store.1, ?_, h.succeeds, h.calls_succ, h.callsSucceed_succ.mpr hcall⟩
      show Function.update w.pending name _ = _
      rw [h.store.2]

/-- **A commit** fails and leaves the edits in the pending delta, or makes the edited package
the committed one. -/
theorem Saved.commit (h : Saved start name edits n w) :
    (∃ w', commit w name = (w', false) ∧ start.succeeds (start.calls + n) = false ∧
        w'.committed = start.committed ∧
        w'.pending = Function.update start.pending name (start.pending name ++ edits)) ∨
      ∃ w', commit w name = (w', true) ∧ start.succeeds (start.calls + n) = true ∧
        w'.committed =
          Function.update start.committed name ((start.load name).contents.fold edits) ∧
        w'.pending = Function.update start.pending name [] := by
  rw [← h.succeeds, ← h.calls]
  cases hcall : w.succeeds w.calls with
  | false =>
      simp only [Uci.commit, World.call, hcall]
      exact Or.inl ⟨_, rfl, trivial, h.committed, h.pending⟩
  | true =>
      simp only [Uci.commit, World.call, hcall]
      refine Or.inr ⟨_, rfl, trivial, ?_, ?_⟩
      · show Function.update w.committed name _ = _
        rw [h.committed, h.pending, Function.update_self, fold_append]
        rfl
      · show Function.update w.pending name [] = _
        rw [h.pending, Function.update_idem]

end Uci
