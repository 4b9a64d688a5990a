/-
# The timer manager refines a finite map

What the manager is for, in its own terms: a finite map from names to interval,
callback, user data and next run time, where `update` moves every due time to the
first point of its grid after the clock reading (`mapStep`).  The chain, the size
counter and the mutex of `TimerManager.lean` refine it:

* `TimerManager.Inv` holds of a created manager and is kept by every call;
* `step_outcome` : what one call can do, from which the rest follows;
* `InRange` : the numbers of a call have room in `tv_sec`, and an interval that `timer_add`
  accepts is a number;
* `step_simulates` : a call in range on a manager is the same call on its map, with the same
  answer;
* `step_callSpec` : what each call in range does to the chain itself (order of the entries,
  the counter, the untouched manager after a refusal).
-/
import Mathlib.Data.Set.Card
import RouterTools.Runs
import RouterTools.TimerSpec

namespace Timer

variable {κ υ : Type*}

/-! ## The abstract map -/

/-- What the map keeps for a name; the time is in nanoseconds. -/
structure TimerData (κ υ : Type*) where
  intervalSeconds : Double
  callback : κ
  userData : υ
  nextRunTime : ℤ

/-- The finite map from names to timers. -/
abbrev TimerMap (κ υ : Type*) := Name → Option (TimerData κ υ)

/-- The answers of the map; the invocations of an update are a set. -/
inductive MapAnswer (κ υ : Type*) where
  | added (ok : Bool)
  | removed (ok : Bool)
  | updated (fired : Set (Name × κ × υ × ℤ))
  | size (n : ℤ)

/-- A timer after an update at `now`. -/
def TimerData.advance (now : ℤ) (data : TimerData κ υ) : TimerData κ υ :=
  { data with nextRunTime := nextPoint now data.nextRunTime (increment data.intervalSeconds) }

open Classical in
/-- The calls of the interface on the map. -/
noncomputable def mapStep (a : TimerMap κ υ) : Call κ υ → TimerMap κ υ × MapAnswer κ υ
  | .add (some name) s (some callback) userData res =>
      match res.clock with
      | some now =>
          if s.Positive ∧ a name = none ∧ res.mallocEntry = true ∧ res.strdupName = true then
            (Function.update a name (some ⟨s, callback, userData, now.1.value + increment s⟩),
              .added true)
          else (a, .added false)
      | none => (a, .added false)
  | .add .. => (a, .added false)
  | .remove (some name) => (Function.update a name none, .removed (a name).isSome)
  | .remove none => (a, .removed false)
  | .update (some now) =>
      (fun name => (a name).map (TimerData.advance now.1.value),
        .updated {p | ∃ data, a p.1 = some data ∧ data.nextRunTime ≤ now.1.value ∧
          p.2 = (data.callback, data.userData, data.nextRunTime)})
  | .update none => (a, .updated ∅)
  | .getSize => (a, .size (Set.ncard {name | (a name).isSome}))

/-- The map of a chain. -/
def TimerEntry.data (e : TimerEntry κ υ) : Option (TimerData κ υ) :=
  e.callback.map fun callback => ⟨e.intervalSeconds, callback, e.userData, e.nextRunTime.value⟩

/-- The map a manager stands for. -/
def TimerManager.toMap (m : TimerManager κ υ) : TimerMap κ υ := fun name =>
  (KeyedList.lookup TimerEntry.name m.head name).bind TimerEntry.data

/-- The answer of the map a concrete answer stands for. -/
def Answer.abstract : Answer κ υ → MapAnswer κ υ
  | .added result => .added result.isOk
  | .removed result => .removed result
  | .updated fired =>
      .updated {p | ∃ i ∈ fired, p = (i.name, i.callback, i.userData, i.due.value)}
  | .size n => .size n

/-! ## The invariant -/

/-- The invariant of a manager between two critical sections. -/
structure TimerManager.Inv (m : TimerManager κ υ) : Prop where
  distinct : KeyedList.Distinct TimerEntry.name m.head
  wellFormed : ∀ e ∈ m.head, e.WellFormed
  callback : ∀ e ∈ m.head, e.callback.isSome
  size_eq : m.size = m.head.length
  unlocked : m.mutex = none

/-- A created manager is empty. -/
theorem head_create {m : TimerManager κ υ} {mallocOk : Bool} {rc : ℤ}
    (h : timerManagerCreate mallocOk rc = some m) : m = ⟨[], none, 0⟩ := by
  unfold timerManagerCreate at h
  split_ifs at h
  cases h
  rfl

theorem inv_create {m : TimerManager κ υ} {mallocOk : Bool} {rc : ℤ}
    (h : timerManagerCreate mallocOk rc = some m) : m.Inv := by
  rw [head_create h]
  exact ⟨KeyedList.distinct_nil, by simp, by simp, rfl, rfl⟩

theorem toMap_create {m : TimerManager κ υ} {mallocOk : Bool} {rc : ℤ}
    (h : timerManagerCreate mallocOk rc = some m) : m.toMap = fun _ => none := by
  rw [head_create h]
  rfl

/-- Linking a new entry in front keeps the invariant. -/
theorem TimerManager.Inv.add {m : TimerManager κ υ} (hm : m.Inv) {name : Name}
    (hnew : name ∉ m.names) {s : Double} (hs : ¬ s.NonPos) (callback : κ) (userData : υ)
    (now : ClockTime) :
    ({ m with head := newEntry name s callback userData now :: m.head
              size := m.size + 1 } : TimerManager κ υ).Inv where
  distinct := KeyedList.distinct_cons.mpr ⟨hnew, hm.distinct⟩
  wellFormed := List.forall_mem_cons.mpr
    ⟨newEntry_wellFormed hs name callback userData now, hm.wellFormed⟩
  callback := List.forall_mem_cons.mpr ⟨rfl, hm.callback⟩
  size_eq := by simp [hm.size_eq]
  unlocked := hm.unlocked

/-- What is left after a removal was there before. -/
theorem mem_of_mem_remove {l : List (TimerEntry κ υ)} {name : Name} {e : TimerEntry κ υ}
    (h : e ∈ KeyedList.remove TimerEntry.name l name) : e ∈ l :=
  List.mem_of_mem_eraseP h

/-- Cutting a present entry out keeps the invariant. -/
theorem TimerManager.Inv.remove {m : TimerManager κ υ} (hm : m.Inv) {name : Name}
    (hmem : name ∈ m.names) :
    ({ m with head := KeyedList.remove TimerEntry.name m.head name
              size := m.size - 1 } : TimerManager κ υ).Inv := by
  refine ⟨hm.distinct.remove name, ?_, ?_, ?_, hm.unlocked⟩
  · exact fun x hx => hm.wellFormed x (mem_of_mem_remove hx)
  · exact fun x hx => hm.callback x (mem_of_mem_remove hx)
  · obtain ⟨l₁, e, l₂, hl, -, -, hrem⟩ := KeyedList.exists_remove_eq hmem
    have hlen : (l₁ ++ l₂).length + 1 = m.head.length := by
      rw [hl]
      simp only [List.length_append, List.length_cons]
      omega
    show m.size - 1 = ((KeyedList.remove TimerEntry.name m.head name).length : ℤ)
    rw [hrem, hm.size_eq]
    omega

/-- Updating the entries keeps the invariant. -/
theorem TimerManager.Inv.update {m : TimerManager κ υ} (hm : m.Inv) {now : Timespec}
    {l' : List (TimerEntry κ υ)} (h : List.Forall₂ (Updated now) m.head l') :
    ({ m with head := l' } : TimerManager κ υ).Inv where
  distinct := hm.distinct.of_map_eq (names_eq_of_forall₂ h)
  wellFormed := by
    intro e' he'
    obtain ⟨e, he, hupd⟩ := forall₂_mem h he'
    exact hupd.wellFormed (hm.wellFormed e he)
  callback := by
    intro e' he'
    obtain ⟨e, he, hupd⟩ := forall₂_mem h he'
    rw [hupd.same]
    exact hm.callback e he
  size_eq := by rw [← h.length_eq]; exact hm.size_eq
  unlocked := hm.unlocked

/-- What a call can do to a manager of the invariant, and what it answers. -/
inductive Outcome (m : TimerManager κ υ) : Call κ υ → TimerManager κ υ → Answer κ υ → Prop
  | added {n s cb userData res now} (hadd : AddSucceeds m (some n) s (some cb) res)
      (hnow : res.clock = some now) :
      Outcome m (.add (some n) s (some cb) userData res)
        { m with head := newEntry n s cb userData now :: m.head, size := m.size + 1 }
        (.added (.ok ()))
  | refused {name s callback userData res err} (hadd : ¬ AddSucceeds m name s callback res) :
      Outcome m (.add name s callback userData res) m (.added (.error err))
  | removed {n} (hmem : n ∈ m.names) :
      Outcome m (.remove (some n))
        { m with head := KeyedList.remove TimerEntry.name m.head n, size := m.size - 1 }
        (.removed true)
  | absent {name} (hmem : ∀ n ∈ name, n ∉ m.names) : Outcome m (.remove name) m (.removed false)
  | updated {now : ClockTime} {l'} (hall : List.Forall₂ (Updated now.1) m.head l') :
      Outcome m (.update (some now)) { m with head := l' }
        (.updated (m.head.flatMap (firedBy now.1)))
  | noClock : Outcome m (.update none) m (.updated [])
  | size : Outcome m .getSize m (.size m.head.length)

/-- **One call has one of these outcomes**; the other facts about calls come from here. -/
theorem step_outcome {fuel : ℕ} {m m' : TimerManager κ υ} {req : Request κ υ}
    {answer : Answer κ υ} (hm : m.Inv) (h : step fuel m req = some (m', answer)) :
    Outcome m req.call m' answer := by
  obtain ⟨self, call⟩ := req
  cases call with
  | add name s callback userData res =>
      cases h
      by_cases hadd : AddSucceeds m name s callback res
      · obtain ⟨n, cb, now, rfl, rfl, hnow, heq⟩ := timerAdd_ok hm.unlocked self userData hadd
        rw [heq]
        exact .added hadd hnow
      · obtain ⟨err, heq⟩ := timerAdd_error hm.unlocked self userData hadd
        rw [heq]
        exact .refused hadd
  | remove name =>
      cases h
      rw [timerRemove_eq hm.unlocked]
      cases name with
      | none => exact .absent (by simp)
      | some n =>
          by_cases hmem : n ∈ m.names
          · simp only [if_pos hmem]
            exact .removed hmem
          · simp only [if_neg hmem]
            exact .absent (by simpa using hmem)
  | update clock =>
      cases hu : timerUpdate fuel self m clock with
      | none => simp only [step, hu] at h; cases h
      | some r =>
          obtain ⟨m₁, fired⟩ := r
          simp only [step, hu] at h
          cases h
          cases clock with
          | none =>
              cases hu
              exact .noClock
          | some now =>
              obtain ⟨⟨l', hall, rfl⟩, rfl⟩ := timerUpdate_spec hm.unlocked hu
              exact .updated hall
  | getSize =>
      cases h
      rw [timerGetSize, TimerManager.unlock_lock hm.unlocked, TimerManager.lock_size, hm.size_eq]
      exact .size

/-- **Every call keeps the invariant.** -/
theorem step_inv {fuel : ℕ} (m : TimerManager κ υ) (req : Request κ υ) (m' : TimerManager κ υ)
    (answer : Answer κ υ) (hm : m.Inv) (h : step fuel m req = some (m', answer)) : m'.Inv := by
  obtain ⟨self, call⟩ := req
  cases step_outcome hm h with
  | added hadd _ => exact hm.add (hadd.2.1 _ rfl) hadd.1.2.2 _ _ _
  | refused => exact hm
  | removed hmem => exact hm.remove hmem
  | absent => exact hm
  | updated hall => exact hm.update hall
  | noClock => exact hm
  | size => exact hm

/-! ## Calls in range -/

/-- The timers run at positive intervals, from valid times. -/
def TimerManager.Sound (m : TimerManager κ υ) : Prop := ∀ e ∈ m.head, e.Sound

/-- The numbers of the call have room: an interval that is accepted is a number and can be
added to the clock reading, and a timer that is due can be brought past the clock reading. -/
def InRange (m : TimerManager κ υ) (req : Request κ υ) : Prop :=
  match req.call with
  | .add name s callback _ res =>
      AddSucceeds m name s callback res → ∀ now ∈ res.clock, s.Positive ∧ AddFits now.1 s
  | .update clock => ∀ now ∈ clock, ∀ e ∈ m.head, e.HasRoom now.1
  | _ => True

theorem newEntry_sound {name : Name} {s : Double} (hs : s.Positive) (callback : κ) (userData : υ)
    {now : ClockTime} (hfit : AddFits now.1 s) : (newEntry name s callback userData now).Sound :=
  ⟨hs, hfit.1, timespecAddDouble_valid now.2 hs⟩

/-- Updated timers that have room are advanced. -/
theorem forall₂_advanced {now : Timespec} (hnow : now.Normalised) {l l' : List (TimerEntry κ υ)}
    (h : List.Forall₂ (Updated now) l l') (hl : ∀ e ∈ l, e.Sound) (hroom : ∀ e ∈ l, e.HasRoom now) :
    List.Forall₂ (Advanced now) l l' := by
  induction h with
  | nil => exact .nil
  | @cons e e' l l' hupd _ ih =>
      obtain ⟨he, hl⟩ := List.forall_mem_cons.mp hl
      obtain ⟨her, hroom⟩ := List.forall_mem_cons.mp hroom
      exact .cons (hupd.advanced hnow he her) (ih hl hroom)

/-- **A call in range keeps the timers sound.** -/
theorem step_sound {fuel : ℕ} (m : TimerManager κ υ) (req : Request κ υ) (m' : TimerManager κ υ)
    (answer : Answer κ υ) (hm : m.Inv) (hsound : m.Sound) (hrange : InRange m req)
    (h : step fuel m req = some (m', answer)) : m'.Sound := by
  obtain ⟨self, call⟩ := req
  cases step_outcome hm h with
  | added hadd hnow =>
      obtain ⟨hpos, hfit⟩ := hrange hadd _ hnow
      exact List.forall_mem_cons.mpr ⟨newEntry_sound hpos _ _ hfit, hsound⟩
  | refused => exact hsound
  | removed => exact fun e he => hsound e (mem_of_mem_remove he)
  | absent => exact hsound
  | @updated now l' hall =>
      intro e' he'
      obtain ⟨e, he, hupd⟩ := forall₂_mem hall he'
      exact (hupd.advanced now.2.1 (hsound e he) (hrange now rfl e he)).sound (hsound e he)
  | noClock => exact hsound
  | size => exact hsound

/-! ## The simulation -/

/-- The map of a name is there exactly when the name is in the chain. -/
theorem toMap_isSome {m : TimerManager κ υ} (hm : m.Inv) (name : Name) :
    (m.toMap name).isSome ↔ name ∈ m.names := by
  unfold TimerManager.toMap
  cases hl : KeyedList.lookup TimerEntry.name m.head name with
  | none =>
      have hnot := KeyedList.lookup_eq_none_iff.mp hl
      simpa [TimerManager.names] using hnot
  | some e =>
      obtain ⟨hname, hmem⟩ := KeyedList.lookup_eq_some hl
      have hin : name ∈ m.names := hname ▸ List.mem_map_of_mem hmem
      have hcb := hm.callback e hmem
      simpa [TimerEntry.data, hin] using hcb

theorem toMap_eq_none {m : TimerManager κ υ} (hm : m.Inv) (name : Name) :
    m.toMap name = none ↔ name ∉ m.names := by
  rw [← toMap_isSome hm, Option.not_isSome_iff_eq_none]

/-- The loop's grid point is the abstract one. -/
theorem Advanced.nextPoint_eq {now : Timespec} {e e' : TimerEntry κ υ}
    (h : Advanced now e e') (he : e.Sound) :
    e'.nextRunTime.value =
      nextPoint now.value e.nextRunTime.value (increment e.intervalSeconds) := by
  obtain ⟨j, hj, hlast⟩ := h.grid
  exact eq_nextPoint (increment_nonneg he.positive) hj h.after hlast

/-- An advanced chain stands for the advanced map. -/
theorem lookup_data_of_forall₂ {now : Timespec} {l l' : List (TimerEntry κ υ)}
    (h : List.Forall₂ (Advanced now) l l') (hl : ∀ e ∈ l, e.Sound) (name : Name) :
    (KeyedList.lookup TimerEntry.name l' name).bind TimerEntry.data =
      ((KeyedList.lookup TimerEntry.name l name).bind TimerEntry.data).map
        (TimerData.advance now.value) := by
  induction h with
  | nil => rfl
  | @cons e e' l l' hadv _ ih =>
      have hname : e'.name = e.name := by rw [hadv.same]
      rw [KeyedList.lookup_cons, KeyedList.lookup_cons, hname]
      by_cases hn : e.name = name
      · have hpoint := hadv.nextPoint_eq (hl e List.mem_cons_self)
        have hsame := hadv.same
        rw [if_pos hn, if_pos hn, Option.bind_some, Option.bind_some]
        unfold TimerEntry.data
        rw [Option.map_map, hpoint]
        rw [hsame]
        rfl
      · rw [if_neg hn, if_neg hn]
        exact ih fun x hx => hl x (List.mem_cons_of_mem e hx)

/-- The invocations of the traversal are those of the map. -/
theorem mem_fired_iff {m : TimerManager κ υ} (hm : m.Inv) (hsound : m.Sound) {now : Timespec}
    (hnow : now.Normalised) (p : Name × κ × υ × ℤ) :
    (∃ i ∈ m.head.flatMap (firedBy now), p = (i.name, i.callback, i.userData, i.due.value)) ↔
      ∃ data, m.toMap p.1 = some data ∧ data.nextRunTime ≤ now.value ∧
        p.2 = (data.callback, data.userData, data.nextRunTime) := by
  constructor
  · rintro ⟨i, hi, rfl⟩
    obtain ⟨e, he, hfired⟩ := List.mem_flatMap.mp hi
    unfold firedBy at hfired
    split_ifs at hfired with hdue
    · -- every entry of a manager has a callback
      obtain ⟨cb, hcb⟩ := Option.isSome_iff_exists.mp (hm.callback e he)
      simp only [invokeCallback, hcb, List.mem_singleton] at hfired
      subst hfired
      have hle := ((hsound e he).due_iff hnow).mp hdue
      refine ⟨⟨e.intervalSeconds, cb, e.userData, e.nextRunTime.value⟩, ?_, hle, rfl⟩
      show (KeyedList.lookup TimerEntry.name m.head e.name).bind TimerEntry.data = _
      rw [KeyedList.lookup_of_mem hm.distinct he, Option.bind_some, TimerEntry.data, hcb]
      rfl
    · cases hfired
  · rintro ⟨data, hdata, hdue, hp⟩
    obtain ⟨e, hlook, hed⟩ := Option.bind_eq_some_iff.mp hdata
    obtain ⟨hname, hmem⟩ := KeyedList.lookup_eq_some hlook
    obtain ⟨cb, hcb, rfl⟩ := Option.map_eq_some_iff.mp hed
    refine ⟨⟨e.name, cb, e.userData, e.nextRunTime⟩, ?_, ?_⟩
    · refine List.mem_flatMap.mpr ⟨e, hmem, ?_⟩
      rw [firedBy, if_pos (((hsound e hmem).due_iff hnow).mpr hdue), invokeCallback, hcb]
      exact List.mem_singleton_self _
    · exact Prod.ext hname.symm hp

/-- The number of names of the map is the length of the chain. -/
theorem ncard_toMap {m : TimerManager κ υ} (hm : m.Inv) :
    (Set.ncard {name | (m.toMap name).isSome} : ℤ) = m.head.length := by
  have hset : {name | (m.toMap name).isSome} = (↑(m.names.toFinset) : Set Name) := by
    ext name
    simp [toMap_isSome hm]
  have hnodup : m.names.Nodup := hm.distinct
  rw [hset, Set.ncard_coe_finset, List.toFinset_card_of_nodup hnodup, TimerManager.names,
    List.length_map]

theorem newEntry_data {name : Name} {s : Double} (hs : s.Positive) (callback : κ) (userData : υ)
    {now : ClockTime} (hfit : AddFits now.1 s) :
    (newEntry name s callback userData now).data =
      some ⟨s, callback, userData, now.1.value + increment s⟩ := by
  rw [← (timespecAddDouble_spec now.2 hs hfit).2]
  rfl

/-- The new entry is the new value of its name. -/
theorem toMap_add (m : TimerManager κ υ) (name : Name) {s : Double} (hs : s.Positive)
    (callback : κ) (userData : υ) {now : ClockTime} (hfit : AddFits now.1 s) (size : ℤ) :
    ({ m with head := newEntry name s callback userData now :: m.head
              size := size } : TimerManager κ υ).toMap =
      Function.update m.toMap name (some ⟨s, callback, userData, now.1.value + increment s⟩) := by
  funext k
  show (KeyedList.lookup TimerEntry.name (_ :: m.head) k).bind TimerEntry.data = _
  rw [KeyedList.lookup_cons, newEntry_name, Function.update_apply]
  by_cases hk : k = name
  · subst hk
    rw [if_pos rfl, if_pos rfl, Option.bind_some, newEntry_data hs _ _ hfit]
  · rw [if_neg hk, if_neg (fun h => hk h.symm)]
    rfl

/-- A name that is removed has no value. -/
theorem toMap_remove {m : TimerManager κ υ} (hm : m.Inv) (name : Name) (size : ℤ) :
    ({ m with head := KeyedList.remove TimerEntry.name m.head name
              size := size } : TimerManager κ υ).toMap = Function.update m.toMap name none := by
  funext k
  show (KeyedList.lookup TimerEntry.name
    (KeyedList.remove TimerEntry.name m.head name) k).bind TimerEntry.data = _
  rw [KeyedList.lookup_remove hm.distinct, Function.update_apply, Function.update_apply]
  by_cases hk : k = name <;> simp [hk, TimerManager.toMap]

/-- The map refuses an addition that the manager refuses. -/
theorem mapStep_refused {m : TimerManager κ υ} (hm : m.Inv) {name : Option Name} {s : Double}
    {callback : Option κ} (userData : υ) {res : AddResources}
    (hadd : ¬ AddSucceeds m name s callback res) :
    mapStep m.toMap (.add name s callback userData res) = (m.toMap, .added false) := by
  rcases name with _ | n
  · rfl
  rcases callback with _ | cb
  · rfl
  rw [mapStep]
  cases hnow : res.clock with
  | none => rfl
  | some now =>
      dsimp only
      rw [if_neg]
      rintro ⟨hs, hnone, hma, hst⟩
      refine hadd ⟨⟨rfl, rfl, hs.not_nonPos⟩, ?_, hma, hst, by rw [hnow]; rfl⟩
      rintro n' ⟨⟩
      exact (toMap_eq_none hm n).mp hnone

/-- **A call in range is the same call on the map, with the same answer.** -/
theorem step_simulates {fuel : ℕ} {m m' : TimerManager κ υ} {req : Request κ υ}
    {answer : Answer κ υ} (hm : m.Inv) (hsound : m.Sound) (hrange : InRange m req)
    (h : step fuel m req = some (m', answer)) :
    mapStep m.toMap req.call = (m'.toMap, answer.abstract) := by
  obtain ⟨self, call⟩ := req
  cases step_outcome hm h with
  | @added n s cb userData res now hadd hnow =>
      obtain ⟨hs, hfit⟩ := hrange hadd now hnow
      obtain ⟨-, hnew, hma, hst, -⟩ := hadd
      have hnone : m.toMap n = none := (toMap_eq_none hm n).mpr (hnew n rfl)
      simp only [mapStep, hnow, toMap_add m n hs cb userData hfit]
      rw [if_pos ⟨hs, hnone, hma, hst⟩]
      rfl
  | refused hadd => exact mapStep_refused hm _ hadd
  | @removed n hmem =>
      simp only [mapStep, (toMap_isSome hm n).mpr hmem, toMap_remove hm n]
      rfl
  | @absent name hmem =>
      cases name with
      | none => rfl
      | some n =>
          have hnone := (toMap_eq_none hm n).mpr (hmem n rfl)
          simp only [mapStep, hnone, Option.isSome_none]
          exact Prod.ext (Function.update_eq_self_iff.mpr hnone.symm) rfl
  | @updated now l' hall =>
      have hadv := forall₂_advanced now.2.1 hall hsound (hrange now rfl)
      refine Prod.ext ?_ ?_
      · -- the traversal keeps the names and moves the points
        funext name
        exact (lookup_data_of_forall₂ hadv hsound name).symm
      · show MapAnswer.updated _ = MapAnswer.updated _
        congr 1
        ext p
        exact (mem_fired_iff hm hsound now.2.1 p).symm
  | noClock => simp [mapStep, Answer.abstract]
  | size =>
      show (m.toMap, MapAnswer.size _) = (m.toMap, MapAnswer.size _)
      rw [ncard_toMap hm]

/-! ## The calls on the chain -/

/-- The arguments `timer_add` asks for: a name, a callback, and an interval that is a number
above zero. -/
def ValidArguments (name : Option Name) (intervalSeconds : Double) (callback : Option κ) : Prop :=
  name.isSome ∧ callback.isSome ∧ intervalSeconds.Positive

/-- What a call does to the chain of entries. -/
def CallSpec (m : TimerManager κ υ) (call : Call κ υ) (m' : TimerManager κ υ)
    (answer : Answer κ υ) : Prop :=
  match call with
  | .add name s callback userData res =>
      ∃ result, answer = .added result ∧
        (result = .ok () ↔ ValidArguments name s callback ∧ (∀ n ∈ name, n ∉ m.names) ∧
          res.mallocEntry = true ∧ res.strdupName = true ∧ res.clock.isSome) ∧
        (result = .ok () → ∃ n cb now, name = some n ∧ callback = some cb ∧
          res.clock = some now ∧
          m' = { m with head := newEntry n s cb userData now :: m.head, size := m.size + 1 }) ∧
        (result ≠ .ok () → m' = m)
  | .remove name =>
      ∃ result, answer = .removed result ∧
        (result = true ↔ ∃ n, name = some n ∧ n ∈ m.names) ∧
        (result = true → ∃ l₁ e l₂, m.head = l₁ ++ e :: l₂ ∧ name = some e.name ∧
          m' = { m with head := l₁ ++ l₂, size := m.size - 1 }) ∧
        (result = false → m' = m)
  | .update clock =>
      (∃ fired, answer = .updated fired) ∧ (clock = none → m' = m) ∧
        ∃ l', List.Forall₂ SameButNextRun m.head l' ∧ m' = { m with head := l' }
  | .getSize => answer = .size m.head.length ∧ m' = m

/-- **A call in range meets its specification.** -/
theorem step_callSpec {fuel : ℕ} {m m' : TimerManager κ υ} {req : Request κ υ}
    {answer : Answer κ υ} (hm : m.Inv) (hrange : InRange m req)
    (h : step fuel m req = some (m', answer)) : CallSpec m req.call m' answer := by
  obtain ⟨self, call⟩ := req
  cases step_outcome hm h with
  | @added n s cb userData res now hadd hnow =>
      have hvalid : ValidArguments (some n) s (some cb) := ⟨rfl, rfl, (hrange hadd now hnow).1⟩
      exact ⟨_, rfl, by simp [hvalid, hadd.2], fun _ => ⟨n, cb, now, rfl, rfl, hnow, rfl⟩,
        fun hne => absurd rfl hne⟩
  | @refused name s callback userData res err hadd =>
      refine ⟨_, rfl, ?_, by simp, fun _ => rfl⟩
      -- valid arguments pass the check
      have hnot : ¬ (ValidArguments name s callback ∧ (∀ n ∈ name, n ∉ m.names) ∧
          res.mallocEntry = true ∧ res.strdupName = true ∧ res.clock.isSome) := by
        rintro ⟨⟨hn, hc, hs⟩, hrest⟩
        exact hadd ⟨⟨hn, hc, hs.not_nonPos⟩, hrest⟩
      simp only [reduceCtorEq, hnot]
  | @removed n hmem =>
      obtain ⟨l₁, e, l₂, hl, hname, -, hrem⟩ := KeyedList.exists_remove_eq hmem
      refine ⟨_, rfl, by simp [hmem], fun _ => ⟨l₁, e, l₂, hl, by rw [hname], ?_⟩, by simp⟩
      rw [hrem]
  | absent hmem =>
      refine ⟨_, rfl, ?_, by simp, fun _ => rfl⟩
      simpa using hmem
  | updated hall =>
      exact ⟨⟨_, rfl⟩, by simp, _, hall.imp fun _ _ hupd => hupd.same, rfl⟩
  | noClock => exact ⟨⟨_, rfl⟩, fun _ => rfl, m.head, List.forall₂_same.mpr fun _ _ => rfl, rfl⟩
  | size => exact ⟨rfl, rfl⟩

/-! ## Runs -/

/-- **Every call in range returns**, an update as long as no interval is below a nanosecond. -/
theorem step_returns {m : TimerManager κ υ} (hsound : m.Sound) (req : Request κ υ)
    (hrange : InRange m req)
    (hinc : ∀ clock, req.call = .update clock → ∀ e ∈ m.head, 1 ≤ increment e.intervalSeconds) :
    ∃ fuel, ∀ fuel', fuel ≤ fuel' → ∃ r, step fuel' m req = some r := by
  obtain ⟨self, call⟩ := req
  cases call with
  | add => exact ⟨0, fun _ _ => ⟨_, rfl⟩⟩
  | remove => exact ⟨0, fun _ _ => ⟨_, rfl⟩⟩
  | getSize => exact ⟨0, fun _ _ => ⟨_, rfl⟩⟩
  | update clock =>
      cases clock with
      | none => exact ⟨0, fun _ _ => ⟨_, rfl⟩⟩
      | some now =>
          obtain ⟨fuel, hfuel⟩ : ∃ fuel, ∀ fuel', fuel ≤ fuel' →
              ∃ r, updateEntries fuel' now.1 m.head = some r := exists_fuel fun e he _ =>
            (hsound e he).catchUp_terminates (hrange now rfl e he) now.2.1 (hinc _ rfl e he)
          refine ⟨fuel, fun fuel' hle => ?_⟩
          obtain ⟨r, hr⟩ := hfuel fuel' hle
          simp only [step, timerUpdate, TimerManager.lock_head, hr]
          exact ⟨_, rfl⟩

/-- The states of a created manager. -/
def Reachable (m : TimerManager κ υ) : Prop :=
  ∃ mallocOk rc m₀ fuel reqs answers, timerManagerCreate mallocOk rc = some m₀ ∧
    Runs.run (step fuel) m₀ reqs = some (m, answers)

/-- Every run on a created manager keeps the invariant. -/
theorem Reachable.inv {m : TimerManager κ υ} (h : Reachable m) : m.Inv := by
  obtain ⟨_, _, m₀, _, _, _, hcreate, hrun⟩ := h
  exact Runs.run_invariant step_inv _ (inv_create hcreate) hrun

/-- Every run in range on a created manager is the same run on the empty map. -/
theorem run_simulates {fuel : ℕ} {mallocOk : Bool} {rc : ℤ} {m : TimerManager κ υ}
    (hcreate : timerManagerCreate mallocOk rc = some m) {reqs : List (Request κ υ)}
    (hrange : Runs.Along (step fuel) InRange m reqs)
    {m' : TimerManager κ υ} {answers : List (Answer κ υ)}
    (hrun : Runs.run (step fuel) m reqs = some (m', answers)) :
    (m'.Inv ∧ m'.Sound) ∧
      Runs.run (fun a (req : Request κ υ) => some (mapStep a req.call)) (fun _ => none) reqs =
        some (m'.toMap, answers.map Answer.abstract) := by
  obtain ⟨a, ha, hinv, hsound, rfl⟩ := Runs.run_simulates_along Answer.abstract
    (A := fun (a : TimerMap κ υ) (req : Request κ υ) => some (mapStep a req.call))
    (R := fun (m : TimerManager κ υ) a => m.Inv ∧ m.Sound ∧ m.toMap = a)
    (by
      rintro m₁ _ req m₂ answer ⟨hm, hs, rfl⟩ hr h
      exact ⟨m₂.toMap, by rw [step_simulates hm hs hr h], step_inv m₁ req m₂ answer hm h,
        step_sound m₁ req m₂ answer hm hs hr h, rfl⟩)
    reqs ⟨inv_create hcreate, by simp [TimerManager.Sound, head_create hcreate],
      toMap_create hcreate⟩ hrange hrun
  exact ⟨⟨hinv, hsound⟩, ha⟩

/-- **The timer manager refines a finite map.**  Whatever calls in range a created manager has
served, in whatever order the threads took the mutex and whatever failed: the names are
distinct, the intervals positive, the callbacks there and the size counted, the answers are
those of the map of the names, and every further call in range does to the chain what
`CallSpec` says and returns. -/
theorem timer_manager_refines_map (fuel : ℕ) {mallocOk : Bool} {rc : ℤ} {m : TimerManager κ υ}
    (hcreate : timerManagerCreate mallocOk rc = some m) (reqs : List (Request κ υ))
    (hrange : Runs.Along (step fuel) InRange m reqs)
    {m' : TimerManager κ υ} {answers : List (Answer κ υ)}
    (hrun : Runs.run (step fuel) m reqs = some (m', answers)) :
    (m'.Inv ∧ m'.Sound) ∧
      Runs.run (fun a (req : Request κ υ) => some (mapStep a req.call)) (fun _ => none) reqs =
        some (m'.toMap, answers.map Answer.abstract) ∧
      (∀ fuel' req m'' answer, InRange m' req → step fuel' m' req = some (m'', answer) →
        CallSpec m' req.call m'' answer ∧ m''.Inv ∧ m''.Sound) ∧
      ∀ req : Request κ υ, InRange m' req → (∀ clock, req.call = .update clock →
          ∀ e ∈ m'.head, 1 ≤ increment e.intervalSeconds) →
        ∃ fuel', ∀ fuel'' ≥ fuel', ∃ r, step fuel'' m' req = some r := by
  obtain ⟨⟨hinv, hsound⟩, hsim⟩ := run_simulates hcreate hrange hrun
  refine ⟨⟨hinv, hsound⟩, hsim, ?_, fun req hr hinc => step_returns hsound req hr hinc⟩
  intro fuel' req m'' answer hr h
  exact ⟨step_callSpec hinv hr h, step_inv m' req m'' answer hinv h,
    step_sound m' req m'' answer hinv hsound hr h⟩

/-- A run that adds, is refused a second time, updates late, removes and asks for the
size. -/
theorem timer_manager_refines_map_sample :
    (⟨[], none, 0⟩ : TimerManager ℕ ℕ).Inv := by
  let empty : TimerManager ℕ ℕ := ⟨[], none, 0⟩
  let added : TimerManager ℕ ℕ := ⟨[⟨[97], ⟨11, 500000000⟩, .finite (3 / 2), some 7, 5⟩], none, 1⟩
  let late : TimerManager ℕ ℕ := ⟨[⟨[97], ⟨16, 0⟩, .finite (3 / 2), some 7, 5⟩], none, 1⟩
  let add : Request ℕ ℕ := ⟨0, .add (some [97]) (.finite (3 / 2)) (some 7) 5
    ⟨true, true, some ⟨⟨10, 0⟩, by decide⟩⟩⟩
  let again : Request ℕ ℕ := ⟨1, .add (some [97]) (.finite 1) (some 8) 5
    ⟨true, true, some ⟨⟨11, 0⟩, by decide⟩⟩⟩
  let update : Request ℕ ℕ := ⟨1, .update (some ⟨⟨14, 500000000⟩, by decide⟩)⟩
  let remove : Request ℕ ℕ := ⟨0, .remove (some [97])⟩
  let size : Request ℕ ℕ := ⟨2, .getSize⟩
  have hadd : InRange empty add := by
    rintro - now ⟨⟩
    decide +kernel
  have hagain : InRange added again := fun h => absurd (h.2.1 _ rfl) (by decide)
  have hupdate : InRange added update := by
    rintro now ⟨⟩ e he -
    rw [List.mem_singleton.mp he]
    decide +kernel
  have hrange : Runs.Along (step 10) InRange empty [add, again, update, remove, size] :=
    Runs.along_cons_of_eq hadd (show _ = some (added, .added (.ok ())) by decide +kernel)
      (Runs.along_cons_of_eq hagain
        (show _ = some (added, .added (.error .nameExists)) by decide +kernel)
        (Runs.along_cons_of_eq hupdate
          (show _ = some (late, .updated [⟨[97], 7, 5, ⟨11, 500000000⟩⟩]) by decide +kernel)
          (Runs.along_cons_of_eq trivial (show _ = some (empty, .removed true) by decide +kernel)
            (Runs.along_cons.mpr ⟨trivial, fun _ _ _ => Runs.along_nil _⟩))))
  exact (timer_manager_refines_map 10 (show timerManagerCreate true 0 = some empty from rfl) _
    hrange (show _ = some (empty, [.added (.ok ()), .added (.error .nameExists),
      .updated [⟨[97], 7, 5, ⟨11, 500000000⟩⟩], .removed true, .size 0]) by decide +kernel)).1.1

/-- An interval that is no number is accepted, and the timer is due at a time that is none. -/
theorem nan_interval_accepted :
    ∃ m : TimerManager ℕ ℕ, Runs.run (step 0) ⟨[], none, 0⟩
        [⟨0, .add (some [97]) .nan (some 7) 5 ⟨true, true, some ⟨⟨10, 0⟩, by decide⟩⟩⟩] =
        some (m, [.added (.ok ())]) ∧
      ∃ e ∈ m.head, ¬ e.intervalSeconds.Positive ∧ ¬ e.nextRunTime.Normalised := by
  let e : TimerEntry ℕ ℕ := ⟨[97], ⟨10 - 2 ^ 63, -2 ^ 63⟩, .nan, some 7, 5⟩
  exact ⟨⟨[e], none, 1⟩, by decide +kernel, e, List.mem_singleton_self e, by decide⟩

end Timer
