/-
# What each function of the timer manager does

One specification per function of `TimerManager.lean`; the invariants, the
refinement and the firing law are derived from these and never unfold the
functions again.

* searching is `KeyedList.lookup`, and the removal splice is `KeyedList.remove`,
  on the head path and on the interior path alike;
* `timer_update` changes nothing but `next_run_time` (`Updated`);
* where its times have room in `tv_sec`, the catch-up loop stops at the first point of
  the grid `next_run_time + j * increment` that lies after the clock reading (`Advanced`),
  and it does stop when the increment is at least one nanosecond.
-/
import RouterTools.KeyedList
import RouterTools.TimerManager

namespace Timer

variable {κ υ : Type*}

@[simp] theorem TimerManager.lock_head (m : TimerManager κ υ) (self : ThreadId) :
    (m.lock self).head = m.head := rfl

@[simp] theorem TimerManager.lock_size (m : TimerManager κ υ) (self : ThreadId) :
    (m.lock self).size = m.size := rfl

/-- Locking a free mutex and unlocking it again changes nothing. -/
theorem TimerManager.unlock_lock {m : TimerManager κ υ} (hm : m.mutex = none) (self : ThreadId) :
    (m.lock self).unlock = m := by
  cases m
  cases hm
  rfl

/-- The names of the entries, in the order of the chain. -/
def TimerManager.names (m : TimerManager κ υ) : List Name := m.head.map TimerEntry.name

/-! ## Searching and removing -/

theorem findTimerEntryNolock_eq_lookup (name : Name) (l : List (TimerEntry κ υ)) :
    findTimerEntryNolock name l = KeyedList.lookup TimerEntry.name l name := by
  induction l with
  | nil => rfl
  | cons e l ih => rw [findTimerEntryNolock, KeyedList.lookup_cons, ih]

/-- An absent name is reported as found nowhere. -/
theorem findWithPreviousLoop_of_not_mem {name : Name} {l : List (TimerEntry κ υ)}
    (h : name ∉ l.map TimerEntry.name) (i : ℕ) (prev : Option ℕ) :
    findWithPreviousLoop name l i prev = (none, none) := by
  induction l generalizing i prev with
  | nil => rfl
  | cons e l ih =>
      rw [List.map_cons, List.mem_cons, not_or] at h
      rw [findWithPreviousLoop, if_neg (Ne.symm h.1), ih h.2]

/-- The first entry of the name is found, with the one before it. -/
theorem findWithPreviousLoop_append {name : Name} {l₁ l₂ : List (TimerEntry κ υ)}
    {e : TimerEntry κ υ} (h₁ : name ∉ l₁.map TimerEntry.name) (he : e.name = name) (i : ℕ)
    (prev : Option ℕ) :
    findWithPreviousLoop name (l₁ ++ e :: l₂) i prev =
      (if l₁ = [] then prev else some (i + l₁.length - 1), some (i + l₁.length)) := by
  induction l₁ generalizing i prev with
  | nil => rw [List.nil_append, findWithPreviousLoop, if_pos he]; rfl
  | cons a l₁ ih =>
      rw [List.map_cons, List.mem_cons, not_or] at h₁
      rw [List.cons_append, findWithPreviousLoop, if_neg (Ne.symm h₁.1), ih h₁.2,
        if_neg (List.cons_ne_nil a l₁), List.length_cons]
      by_cases hl : l₁ = []
      · subst hl
        simp
      · have hpos : 0 < l₁.length := List.length_pos_iff.mpr hl
        rw [if_neg hl]
        congr 2 <;> omega

/-- **`timer_remove` under the lock.**  A present name is cut out of the chain, on the
head path and on the interior path; an absent one leaves the manager alone. -/
theorem timerRemoveLocked_eq (m : TimerManager κ υ) (name : Name) :
    timerRemoveLocked m name =
      if name ∈ m.names then
        ({ m with head := KeyedList.remove TimerEntry.name m.head name
                  size := m.size - 1 }.unlock, true)
      else (m.unlock, false) := by
  by_cases h : name ∈ m.names
  · obtain ⟨l₁, e, l₂, hl, he, h₁, hrem⟩ := KeyedList.exists_remove_eq h
    rw [if_pos h, hrem, timerRemoveLocked, findTimerEntryWithPreviousNolock, hl,
      findWithPreviousLoop_append h₁ he]
    by_cases hnil : l₁ = []
    · subst hnil
      simp
    · obtain ⟨k, hk⟩ : ∃ k, l₁.length = k + 1 :=
        ⟨l₁.length - 1, by have := List.length_pos_iff.mpr hnil; omega⟩
      have hdrop : l₁.drop (k + 1 + 1) = [] := List.drop_eq_nil_of_le (by omega)
      simp [hnil, hk, hdrop, List.drop_append]
  · rw [if_neg h, timerRemoveLocked, findTimerEntryWithPreviousNolock,
      findWithPreviousLoop_of_not_mem h]

/-- **`timer_remove`** with the mutex free. -/
theorem timerRemove_eq {m : TimerManager κ υ} (hm : m.mutex = none) (self : ThreadId)
    (name : Option Name) :
    timerRemove self m name =
      match name with
      | none => (m, false)
      | some n =>
          if n ∈ m.names then
            ({ m with head := KeyedList.remove TimerEntry.name m.head n, size := m.size - 1 }, true)
          else (m, false) := by
  cases name with
  | none => rfl
  | some n =>
      rw [timerRemove, timerRemoveLocked_eq, TimerManager.unlock_lock hm]
      obtain ⟨head, mutex, size⟩ := m
      cases hm
      rfl

/-! ## Adding -/

/-- The entry `timer_add` links when the clock reads `now`. -/
def newEntry (name : Name) (intervalSeconds : Double) (callback : κ) (userData : υ)
    (now : ClockTime) : TimerEntry κ υ :=
  ⟨name, timespecAddDouble now.1 intervalSeconds, intervalSeconds, some callback, userData⟩

@[simp] theorem newEntry_name (name : Name) (s : Double) (callback : κ) (userData : υ)
    (now : ClockTime) : (newEntry name s callback userData now).name = name := rfl

/-- The conditions under which `timer_add` links an entry: arguments that pass its check, a
new name, both allocations and the clock. -/
def AddSucceeds (m : TimerManager κ υ) (name : Option Name) (intervalSeconds : Double)
    (callback : Option κ) (res : AddResources) : Prop :=
  (name.isSome ∧ callback.isSome ∧ ¬ intervalSeconds.NonPos) ∧ (∀ n ∈ name, n ∉ m.names) ∧
    (res.mallocEntry = true ∧ res.strdupName = true ∧ res.clock.isSome)

/-- **`timer_add` succeeds** exactly under `AddSucceeds`, and then it links one entry
in front. -/
theorem timerAdd_ok {m : TimerManager κ υ} (hm : m.mutex = none) (self : ThreadId)
    {name : Option Name} {intervalSeconds : Double} {callback : Option κ} (userData : υ)
    {res : AddResources} (h : AddSucceeds m name intervalSeconds callback res) :
    ∃ n cb now, name = some n ∧ callback = some cb ∧ res.clock = some now ∧
      timerAdd self m name intervalSeconds callback userData res =
        ({ m with head := newEntry n intervalSeconds cb userData now :: m.head
                  size := m.size + 1 }, .ok ()) := by
  obtain ⟨⟨hn, hc, hi⟩, hnew, hma, hst, hcl⟩ := h
  obtain ⟨n, rfl⟩ := Option.isSome_iff_exists.mp hn
  obtain ⟨cb, rfl⟩ := Option.isSome_iff_exists.mp hc
  obtain ⟨now, hnow⟩ := Option.isSome_iff_exists.mp hcl
  refine ⟨n, cb, now, rfl, rfl, hnow, ?_⟩
  have hfind : findTimerEntryNolock n (m.lock self).head = none := by
    rw [findTimerEntryNolock_eq_lookup, KeyedList.lookup_eq_none_iff]
    exact hnew n rfl
  obtain ⟨head, mutex, size⟩ := m
  cases hm
  simp only [timerAdd, if_neg hi, timerAddLocked, hfind, hma, hst, hnow]
  rfl

/-- **`timer_add` fails** in every other case, and then it changes nothing. -/
theorem timerAdd_error {m : TimerManager κ υ} (hm : m.mutex = none) (self : ThreadId)
    {name : Option Name} {intervalSeconds : Double} {callback : Option κ} (userData : υ)
    {res : AddResources} (h : ¬ AddSucceeds m name intervalSeconds callback res) :
    ∃ err, timerAdd self m name intervalSeconds callback userData res = (m, .error err) := by
  rcases name with _ | n
  · exact ⟨_, rfl⟩
  rcases callback with _ | cb
  · exact ⟨_, rfl⟩
  by_cases hi : intervalSeconds.NonPos
  · exact ⟨.invalidParameters, by rw [timerAdd, if_pos hi]⟩
  rw [timerAdd, if_neg hi, timerAddLocked, TimerManager.unlock_lock hm]
  by_cases hfind : (findTimerEntryNolock n (m.lock self).head).isSome = true
  · exact ⟨.nameExists, by rw [if_pos hfind]⟩
  by_cases hma : res.mallocEntry = false
  · exact ⟨.entryAllocation, by rw [if_neg hfind, if_pos hma]⟩
  by_cases hst : res.strdupName = false
  · exact ⟨.nameAllocation, by rw [if_neg hfind, if_neg hma, if_pos hst]⟩
  rw [if_neg hfind, if_neg hma, if_neg hst]
  cases hcl : res.clock with
  | none => exact ⟨.clock, rfl⟩
  | some now =>
      -- every condition holds, against the assumption
      exfalso
      apply h
      rw [findTimerEntryNolock_eq_lookup, KeyedList.lookup_isSome_iff] at hfind
      refine ⟨⟨rfl, rfl, hi⟩, ?_, by simpa using hma, by simpa using hst, by simp [hcl]⟩
      rintro n' ⟨⟩
      exact hfind

theorem timerAddLocked_mutex (m : TimerManager κ υ) (name : Name) (s : Double) (callback : κ)
    (userData : υ) (res : AddResources) :
    (timerAddLocked m name s callback userData res).1.mutex = none := by
  unfold timerAddLocked
  split_ifs
  · rfl
  · rfl
  · rfl
  · cases res.clock <;> rfl

theorem timerRemoveLocked_mutex (m : TimerManager κ υ) (name : Name) :
    (timerRemoveLocked m name).1.mutex = none := by
  unfold timerRemoveLocked
  split <;> rfl

/-! ## Updating -/

/-- The two entries differ at most in `next_run_time`. -/
def SameButNextRun (e e' : TimerEntry κ υ) : Prop :=
  e' = { e with nextRunTime := e'.nextRunTime }

/-- The invocations `timer_update` makes for one entry. -/
def firedBy (now : Timespec) (e : TimerEntry κ υ) : List (Invocation κ υ) :=
  if timespecCompare now e.nextRunTime ≥ 0 then invokeCallback e else []

/-- What `timer_update` leaves of one entry: nothing but `next_run_time` may change, and it
is where the catch-up loop stops. -/
structure Updated (now : Timespec) (e e' : TimerEntry κ υ) : Prop where
  same : SameButNextRun e e'
  caughtUp : ∃ fuel, catchUp fuel now e.intervalSeconds e.nextRunTime = some e'.nextRunTime

/-- A time after the clock reading is where the loop stops at once. -/
theorem catchUp_of_after {now t : Timespec} (h : ¬ timespecCompare now t ≥ 0) (s : Double) :
    catchUp 1 now s t = some t := by
  rw [catchUp, Loop.whileLoop, if_neg (by simpa using h)]

theorem updateEntry_spec {fuel : ℕ} {now : Timespec} {e e' : TimerEntry κ υ}
    {fired : List (Invocation κ υ)} (h : updateEntry fuel now e = some (e', fired)) :
    Updated now e e' ∧ fired = firedBy now e := by
  rw [updateEntry] at h
  by_cases hdue : timespecCompare now e.nextRunTime ≥ 0
  · rw [if_pos hdue] at h
    cases hc : catchUp fuel now e.intervalSeconds e.nextRunTime with
    | none => rw [hc] at h; cases h
    | some t =>
        rw [hc] at h
        cases h
        exact ⟨⟨rfl, fuel, hc⟩, by rw [firedBy, if_pos hdue]⟩
  · rw [if_neg hdue] at h
    cases h
    exact ⟨⟨rfl, 1, catchUp_of_after hdue _⟩, by rw [firedBy, if_neg hdue]⟩

/-- `timer_update` gets past an entry when its catch-up loop stops. -/
theorem updateEntry_returns {fuel : ℕ} {now : Timespec} {e : TimerEntry κ υ}
    (h : timespecCompare now e.nextRunTime ≥ 0 →
      ∃ t, catchUp fuel now e.intervalSeconds e.nextRunTime = some t) :
    ∃ r, updateEntry fuel now e = some r := by
  rw [updateEntry]
  by_cases hdue : timespecCompare now e.nextRunTime ≥ 0
  · obtain ⟨t, ht⟩ := h hdue
    rw [if_pos hdue, ht]
    exact ⟨_, rfl⟩
  · rw [if_neg hdue]
    exact ⟨_, rfl⟩

/-- **The traversal** updates every entry in place and collects the invocations in
the order of the chain. -/
theorem updateEntries_spec {fuel : ℕ} {now : Timespec} :
    ∀ {l l' : List (TimerEntry κ υ)} {fired : List (Invocation κ υ)},
      updateEntries fuel now l = some (l', fired) →
      List.Forall₂ (Updated now) l l' ∧ fired = l.flatMap (firedBy now) := by
  intro l
  induction l with
  | nil =>
      intro l' fired h
      cases h
      exact ⟨.nil, rfl⟩
  | cons e l ih =>
      intro l' fired h
      rw [updateEntries] at h
      cases he : updateEntry fuel now e with
      | none => rw [he] at h; cases h
      | some r =>
          obtain ⟨e', fired₁⟩ := r
          rw [he] at h
          cases hrest : updateEntries fuel now l with
          | none => simp only [hrest] at h; cases h
          | some r =>
              obtain ⟨l₂, fired₂⟩ := r
              simp only [hrest] at h
              cases h
              -- the first entry, then the traversal of the others
              obtain ⟨hupd, hfired⟩ := updateEntry_spec he
              obtain ⟨hall, hfired'⟩ := ih hrest
              exact ⟨.cons hupd hall, by rw [hfired, hfired', List.flatMap_cons]⟩

/-- **The traversal returns** when the catch-up loops of the timers that are due stop. -/
theorem updateEntries_returns {fuel : ℕ} {now : Timespec} :
    ∀ {l : List (TimerEntry κ υ)}, (∀ e ∈ l, timespecCompare now e.nextRunTime ≥ 0 →
        ∃ t, catchUp fuel now e.intervalSeconds e.nextRunTime = some t) →
      ∃ r, updateEntries fuel now l = some r := by
  intro l
  induction l with
  | nil => exact fun _ => ⟨_, rfl⟩
  | cons e l ih =>
      intro hl
      obtain ⟨r, hr⟩ := updateEntry_returns (hl e List.mem_cons_self)
      obtain ⟨r', hr'⟩ := ih fun x hx => hl x (List.mem_cons_of_mem e hx)
      rw [updateEntries, hr]
      simp only [hr']
      exact ⟨_, rfl⟩

theorem catchUp_mono {fuel fuel' : ℕ} (hle : fuel ≤ fuel') {now t t' : Timespec} {s : Double}
    (h : catchUp fuel now s t = some t') : catchUp fuel' now s t = some t' :=
  Loop.whileLoop_mono hle h

/-- A budget that suffices for a whole traversal. -/
theorem exists_fuel {now : Timespec} {l : List (TimerEntry κ υ)}
    (hl : ∀ e ∈ l, timespecCompare now e.nextRunTime ≥ 0 →
      ∃ fuel t, catchUp fuel now e.intervalSeconds e.nextRunTime = some t) :
    ∃ fuel, ∀ fuel', fuel ≤ fuel' → ∃ r, updateEntries fuel' now l = some r := by
  have hbudget : ∃ fuel, ∀ e ∈ l, timespecCompare now e.nextRunTime ≥ 0 →
      ∃ t, catchUp fuel now e.intervalSeconds e.nextRunTime = some t := by
    induction l with
    | nil => exact ⟨0, by simp⟩
    | cons e l ih =>
        obtain ⟨n, hn⟩ := ih fun x hx => hl x (List.mem_cons_of_mem e hx)
        by_cases hdue : timespecCompare now e.nextRunTime ≥ 0
        · obtain ⟨k, t, ht⟩ := hl e List.mem_cons_self hdue
          refine ⟨max k n, List.forall_mem_cons.mpr ⟨?_, ?_⟩⟩
          · exact fun _ => ⟨t, catchUp_mono (le_max_left k n) ht⟩
          · intro x hx hx'
            obtain ⟨t', ht'⟩ := hn x hx hx'
            exact ⟨t', catchUp_mono (le_max_right k n) ht'⟩
        · exact ⟨n, List.forall_mem_cons.mpr ⟨fun h => absurd h hdue, hn⟩⟩
  obtain ⟨fuel, hfuel⟩ := hbudget
  refine ⟨fuel, fun fuel' hle => updateEntries_returns fun e he hdue => ?_⟩
  obtain ⟨t, ht⟩ := hfuel e he hdue
  exact ⟨t, catchUp_mono hle ht⟩

/-- Updating the entries keeps their names, in order. -/
theorem names_eq_of_forall₂ {now : Timespec} {l l' : List (TimerEntry κ υ)}
    (h : List.Forall₂ (Updated now) l l') :
    l'.map TimerEntry.name = l.map TimerEntry.name := by
  induction h with
  | nil => rfl
  | cons hupd _ ih => rw [List.map_cons, List.map_cons, ih, hupd.same]

/-- What the entries share with those they were updated from. -/
theorem forall₂_mem {now : Timespec} {l l' : List (TimerEntry κ υ)}
    (h : List.Forall₂ (Updated now) l l') {e' : TimerEntry κ υ} (he' : e' ∈ l') :
    ∃ e ∈ l, Updated now e e' := by
  induction h with
  | nil => cases he'
  | cons hupd _ ih =>
      rcases List.mem_cons.mp he' with rfl | hmem
      · exact ⟨_, List.mem_cons_self, hupd⟩
      · obtain ⟨e, he, hupd'⟩ := ih hmem
        exact ⟨e, List.mem_cons_of_mem _ he, hupd'⟩

/-- The partner of an entry in the updated chain. -/
theorem exists_updated {now : Timespec} {l l' : List (TimerEntry κ υ)}
    (h : List.Forall₂ (Updated now) l l') {e : TimerEntry κ υ} (he : e ∈ l) :
    ∃ e' ∈ l', Updated now e e' := by
  induction h with
  | nil => cases he
  | cons hupd _ ih =>
      rcases List.mem_cons.mp he with rfl | hmem
      · exact ⟨_, List.mem_cons_self, hupd⟩
      · obtain ⟨e', he', hupd'⟩ := ih hmem
        exact ⟨e', List.mem_cons_of_mem _ he', hupd'⟩

/-- **`timer_update`** with the mutex free and the clock read. -/
theorem timerUpdate_spec {fuel : ℕ} {self : ThreadId} {m m' : TimerManager κ υ}
    (hm : m.mutex = none) {now : ClockTime} {fired : List (Invocation κ υ)}
    (h : timerUpdate fuel self m (some now) = some (m', fired)) :
    (∃ l', List.Forall₂ (Updated now.1) m.head l' ∧ m' = { m with head := l' }) ∧
      fired = m.head.flatMap (firedBy now.1) := by
  rw [timerUpdate] at h
  cases hu : updateEntries fuel now.1 (m.lock self).head with
  | none => simp only [hu] at h; cases h
  | some r =>
      obtain ⟨l', fired'⟩ := r
      simp only [hu] at h
      cases h
      obtain ⟨hall, hfired⟩ := updateEntries_spec hu
      refine ⟨⟨l', hall, ?_⟩, hfired⟩
      obtain ⟨head, mutex, size⟩ := m
      cases hm
      rfl

/-- An update does not return from an entry whose loop does not stop. -/
theorem timerUpdate_stuck {m : TimerManager κ υ} {e : TimerEntry κ υ} (he : e ∈ m.head)
    {now : ClockTime} (h : ∀ fuel, catchUp fuel now.1 e.intervalSeconds e.nextRunTime = none)
    (fuel : ℕ) (self : ThreadId) : timerUpdate fuel self m (some now) = none := by
  rw [timerUpdate, TimerManager.lock_head]
  cases hu : updateEntries fuel now.1 m.head with
  | none => rfl
  | some r =>
      obtain ⟨e', -, hupd⟩ := exists_updated (updateEntries_spec hu).1 he
      obtain ⟨n, hloop⟩ := hupd.caughtUp
      cases (h n).symm.trans hloop

/-! ## More fuel -/

theorem updateEntry_mono {fuel fuel' : ℕ} (hle : fuel ≤ fuel') {now : Timespec}
    {e : TimerEntry κ υ} {r : TimerEntry κ υ × List (Invocation κ υ)}
    (h : updateEntry fuel now e = some r) : updateEntry fuel' now e = some r := by
  rw [updateEntry] at h ⊢
  by_cases hdue : timespecCompare now e.nextRunTime ≥ 0
  · rw [if_pos hdue] at h ⊢
    cases hloop : catchUp fuel now e.intervalSeconds e.nextRunTime with
    | none => rw [hloop] at h; cases h
    | some t =>
        have hloop' : catchUp fuel' now e.intervalSeconds e.nextRunTime = some t :=
          catchUp_mono hle hloop
        rw [hloop] at h
        rw [hloop']
        exact h
  · rw [if_neg hdue] at h ⊢
    exact h

theorem updateEntries_cons_eq_some {fuel : ℕ} {now : Timespec} {e : TimerEntry κ υ}
    {l l' : List (TimerEntry κ υ)} {fired : List (Invocation κ υ)} :
    updateEntries fuel now (e :: l) = some (l', fired) ↔
      ∃ e' fired₁ next fired₂, updateEntry fuel now e = some (e', fired₁) ∧
        updateEntries fuel now l = some (next, fired₂) ∧ l' = e' :: next ∧
        fired = fired₁ ++ fired₂ := by
  constructor
  · intro h
    rw [updateEntries] at h
    split at h
    · cases h
    · rename_i hentry
      split at h
      · cases h
      · rename_i hrest
        cases h
        exact ⟨_, _, _, _, hentry, hrest, rfl, rfl⟩
  · rintro ⟨e', fired₁, next, fired₂, hentry, hrest, rfl, rfl⟩
    rw [updateEntries, hentry]
    simp only [hrest]

theorem updateEntries_mono {fuel fuel' : ℕ} (hle : fuel ≤ fuel') {now : Timespec} :
    ∀ {l : List (TimerEntry κ υ)} {l' : List (TimerEntry κ υ)} {fired : List (Invocation κ υ)},
      updateEntries fuel now l = some (l', fired) →
      updateEntries fuel' now l = some (l', fired) := by
  intro l
  induction l with
  | nil => exact fun h => h
  | cons e l ih =>
      intro l' fired h
      obtain ⟨e', fired₁, next, fired₂, hentry, hrest, rfl, rfl⟩ := updateEntries_cons_eq_some.mp h
      exact updateEntries_cons_eq_some.mpr
        ⟨e', fired₁, next, fired₂, updateEntry_mono hle hentry, ih hrest, rfl, rfl⟩

theorem step_mono {fuel fuel' : ℕ} (hle : fuel ≤ fuel') (m : TimerManager κ υ)
    (req : Request κ υ) (r : TimerManager κ υ × Answer κ υ) (h : step fuel m req = some r) :
    step fuel' m req = some r := by
  obtain ⟨self, call⟩ := req
  cases call with
  | add => exact h
  | remove => exact h
  | getSize => exact h
  | update clock =>
      cases clock with
      | none => exact h
      | some now =>
          simp only [step, timerUpdate] at h ⊢
          cases hu : updateEntries fuel now.1 (m.lock self).head with
          | none => rw [hu] at h; cases h
          | some r' =>
              obtain ⟨head, fired⟩ := r'
              rw [hu] at h
              rw [updateEntries_mono hle hu]
              exact h

/-! ## The times of an entry -/

/-- What `timer_add` and the catch-up loop make of an entry: the time of a positive interval
is a valid one, and that of an interval that is no number is a valid one or its shift. -/
structure TimerEntry.WellFormed (e : TimerEntry κ υ) : Prop where
  accepted : ¬ e.intervalSeconds.NonPos
  valid : e.intervalSeconds.Positive → e.nextRunTime.Valid
  shifted : ¬ e.intervalSeconds.Positive →
    ∃ v : Timespec, v.Valid ∧ (e.nextRunTime = v ∨ e.nextRunTime = v.shift)

/-- No number added to a valid time, or to its shift, gives the other one. -/
theorem timespecAddDouble_shift {s : Double} (hs : ¬ s.NonPos) (hpos : ¬ s.Positive)
    {v : Timespec} (hv : v.Valid) :
    timespecAddDouble v s = v.shift ∧ timespecAddDouble v.shift s = v := by
  have hno := Double.eq_of_not_positive hs hpos
  have hneg := hv.shift_nsec
  constructor
  · refine timespecAddDouble_not_finite hno (hneg.trans ?_)
    norm_num
  · rw [timespecAddDouble_not_finite hno, hv.shift_shift]
    rw [hv.shift_shift]
    exact hv.1.2

theorem newEntry_wellFormed {s : Double} (hs : ¬ s.NonPos) (name : Name) (callback : κ)
    (userData : υ) (now : ClockTime) : (newEntry name s callback userData now).WellFormed where
  accepted := hs
  valid := timespecAddDouble_valid now.2
  shifted hpos := ⟨now.1, now.2, .inr (timespecAddDouble_shift hs hpos now.2).1⟩

/-- **The loop keeps the time of an entry well formed.** -/
theorem Updated.wellFormed {now : Timespec} {e e' : TimerEntry κ υ} (h : Updated now e e')
    (he : e.WellFormed) : e'.WellFormed := by
  obtain ⟨fuel, hloop⟩ := h.caughtUp
  have hinterval : e'.intervalSeconds = e.intervalSeconds := by rw [h.same]
  refine ⟨by rw [hinterval]; exact he.accepted, ?_, ?_⟩
  all_goals
    rw [hinterval]
    intro hpos
  · exact (Loop.whileLoop_invariant (I := Timespec.Valid)
      (fun t ht _ => timespecAddDouble_valid ht hpos) (he.valid hpos) hloop).1
  · obtain ⟨v, hv, hnext⟩ := he.shifted hpos
    obtain ⟨hout, hback⟩ := timespecAddDouble_shift he.accepted hpos hv
    refine ⟨v, hv, (Loop.whileLoop_invariant (I := fun t => t = v ∨ t = v.shift) ?_ hnext hloop).1⟩
    rintro t (rfl | rfl) -
    · exact .inr hout
    · exact .inl hback

/-! ## The catch-up loop on its grid -/

/-- The first point of the grid `t + j * d` after `now`. -/
def nextPoint (now t d : ℤ) : ℤ := if t ≤ now then t + ((now - t) / d + 1) * d else t

/-- A point that is not after `now` has its successor at or before the next point. -/
theorem le_nextPoint {now t d : ℤ} (hd : 0 ≤ d) {j : ℕ} (h : t + j * d ≤ now) :
    t + j * d + d ≤ nextPoint now t d := by
  have hjd : 0 ≤ (j : ℤ) * d := mul_nonneg (Int.natCast_nonneg j) hd
  rw [nextPoint, if_pos (by omega)]
  rcases hd.eq_or_lt with rfl | hpos
  · simp
  · have hq : (j : ℤ) ≤ (now - t) / d := (Int.le_ediv_iff_mul_le hpos).mpr (by linarith)
    have hmul := mul_le_mul_of_nonneg_right hq hd
    linarith

/-- A point after `now` whose predecessor is not after it is the next point. -/
theorem eq_nextPoint {now t d v : ℤ} {j : ℕ} (hd : 0 ≤ d) (hv : v = t + j * d) (hafter : now < v)
    (hlast : j ≠ 0 → v - d ≤ now) : v = nextPoint now t d := by
  rcases Nat.eq_zero_or_pos j with rfl | hpos
  · have htv : v = t := by simpa using hv
    rw [nextPoint, if_neg (by omega), htv]
  · obtain ⟨k, rfl⟩ : ∃ k, j = k + 1 := ⟨j - 1, by omega⟩
    -- the point before the one the loop stops at is not after the reading
    have hle : t + k * d ≤ now := by
      have := hlast (by omega)
      rw [hv] at this
      push_cast at this
      linarith
    have hlt : now < t + (k + 1) * d := by
      rw [hv] at hafter
      exact_mod_cast hafter
    have hdpos : 0 < d := by nlinarith
    have htc : t ≤ now := by nlinarith
    -- so `k` is the number of whole increments in between
    have hdiv : (now - t) / d = k := by
      apply le_antisymm
      · exact Int.le_of_lt_add_one ((Int.ediv_lt_iff_lt_mul hdpos).mpr (by linarith))
      · exact (Int.le_ediv_iff_mul_le hdpos).mpr (by linarith)
    rw [nextPoint, if_pos htc, hdiv, hv]
    push_cast
    ring

/-- The interval of the entry is a positive number with room in `tv_sec`, and its time is a
valid one. -/
structure TimerEntry.Sound (e : TimerEntry κ υ) : Prop where
  positive : e.intervalSeconds.Positive
  increment_lt : increment e.intervalSeconds < endOfTime
  valid : e.nextRunTime.Valid

/-- If the timer is due at `now`, the loop stops within 64 bits. -/
def TimerEntry.HasRoom (now : Timespec) (e : TimerEntry κ υ) : Prop :=
  e.nextRunTime.value ≤ now.value →
    nextPoint now.value e.nextRunTime.value (increment e.intervalSeconds) < endOfTime

/-- What `timer_update` leaves of an entry that has room: `next_run_time` is the first point
of the entry's grid after the clock reading. -/
structure Advanced (now : Timespec) (e e' : TimerEntry κ υ) : Prop where
  same : SameButNextRun e e'
  valid : e'.nextRunTime.Valid
  after : now.value < e'.nextRunTime.value
  grid : ∃ j : ℕ, e'.nextRunTime.value = e.nextRunTime.value + j * increment e.intervalSeconds ∧
    (j ≠ 0 → e'.nextRunTime.value - increment e.intervalSeconds ≤ now.value)

section Grid

variable {now : Timespec} {e : TimerEntry κ υ}

theorem TimerEntry.Sound.due_iff (he : e.Sound) (hnow : now.Normalised) :
    timespecCompare now e.nextRunTime ≥ 0 ↔ e.nextRunTime.value ≤ now.value :=
  timespecCompare_nonneg_iff hnow he.valid.1

/-- One round of the loop is at the next point of the grid. -/
theorem TimerEntry.Sound.round (he : e.Sound) (hroom : e.HasRoom now) {t : Timespec} {j : ℕ}
    (ht : t.Valid) (hj : t.value = e.nextRunTime.value + j * increment e.intervalSeconds)
    (hle : t.value ≤ now.value) :
    (timespecAddDouble t e.intervalSeconds).Valid ∧
      (timespecAddDouble t e.intervalSeconds).value = t.value + increment e.intervalSeconds := by
  have hd := increment_nonneg he.positive
  have hjd : 0 ≤ (j : ℤ) * increment e.intervalSeconds := mul_nonneg (Int.natCast_nonneg j) hd
  have hnext := le_nextPoint hd (hj ▸ hle : e.nextRunTime.value + _ ≤ now.value)
  have hmax := hroom (by omega)
  exact timespecAddDouble_spec ht he.positive ⟨he.increment_lt, by omega⟩

/-- **The catch-up loop** stops at the first grid point after the clock reading. -/
theorem Updated.advanced {e' : TimerEntry κ υ} (h : Updated now e e') (hnow : now.Normalised)
    (he : e.Sound) (hroom : e.HasRoom now) : Advanced now e e' := by
  obtain ⟨fuel, hloop⟩ := h.caughtUp
  have hinv := Loop.whileLoop_invariant
    (I := fun t : Timespec => t.Valid ∧
      ∃ j : ℕ, t.value = e.nextRunTime.value + j * increment e.intervalSeconds ∧
        (j ≠ 0 → t.value - increment e.intervalSeconds ≤ now.value))
    ?_ ⟨he.valid, 0, by simp, by simp⟩ hloop
  · -- at the exit the point is after the clock reading
    obtain ⟨⟨hv, hj⟩, hexit⟩ := hinv
    refine ⟨h.same, hv, ?_, hj⟩
    have hlt : ¬ 0 ≤ timespecCompare now e'.nextRunTime := by simpa using hexit
    rw [timespecCompare_nonneg_iff hnow hv.1] at hlt
    exact not_le.mp hlt
  · -- one round adds the increment to a point that was not after the clock reading
    rintro u ⟨hu, j, hj, -⟩ hc
    have hle : u.value ≤ now.value := by
      rw [← timespecCompare_nonneg_iff hnow hu.1]
      simpa using hc
    obtain ⟨hv, hval⟩ := he.round hroom hu hj hle
    refine ⟨hv, j + 1, ?_, fun _ => ?_⟩
    · rw [hval, hj]
      push_cast
      ring
    · rw [hval]
      linarith

/-- **The catch-up loop ends** when an interval is at least a nanosecond. -/
theorem TimerEntry.Sound.catchUp_terminates (he : e.Sound) (hroom : e.HasRoom now)
    (hnow : now.Normalised) (hinc : 1 ≤ increment e.intervalSeconds) :
    ∃ fuel t, catchUp fuel now e.intervalSeconds e.nextRunTime = some t := by
  refine ⟨_, Loop.whileLoop_terminates
    (I := fun t : Timespec => t.Valid ∧
      ∃ j : ℕ, t.value = e.nextRunTime.value + j * increment e.intervalSeconds)
    (fun t => (now.value + 1 - t.value).toNat) ?_ ⟨he.valid, 0, by simp⟩ (Nat.lt_succ_self _)⟩
  rintro t ⟨ht, j, hj⟩ hc
  have hle : t.value ≤ now.value := by
    rw [← timespecCompare_nonneg_iff hnow ht.1]
    simpa using hc
  obtain ⟨hv, hval⟩ := he.round hroom ht hj hle
  refine ⟨⟨hv, j + 1, ?_⟩, ?_⟩
  · rw [hval, hj]
    push_cast
    ring
  · rw [hval]
    omega

/-- **The catch-up loop of an interval below a nanosecond** never ends, once it is entered. -/
theorem TimerEntry.Sound.catchUp_diverges (he : e.Sound)
    (hinc : increment e.intervalSeconds = 0) (hdue : timespecCompare now e.nextRunTime ≥ 0)
    (fuel : ℕ) : catchUp fuel now e.intervalSeconds e.nextRunTime = none := by
  have hsame : timespecAddDouble e.nextRunTime e.intervalSeconds = e.nextRunTime := by
    obtain ⟨⟨h0, h1⟩, hlo, hhi⟩ := he.valid
    have hfit : AddFits e.nextRunTime e.intervalSeconds := by
      simp only [AddFits, hinc, Timespec.value, nsecPerSec, endOfTime] at h1 ⊢
      omega
    obtain ⟨hv, hval⟩ := timespecAddDouble_spec he.valid he.positive hfit
    refine hv.1.eq_of_value_eq he.valid.1 ?_
    rw [hval, hinc, add_zero]
  refine Loop.whileLoop_diverges (I := fun t => t = e.nextRunTime) ?_ fuel rfl
  rintro t rfl
  exact ⟨by simpa using hdue, hsame⟩

end Grid

/-- A timer that has room stays sound. -/
theorem Advanced.sound {now : Timespec} {e e' : TimerEntry κ υ} (h : Advanced now e e')
    (he : e.Sound) : e'.Sound := by
  have hinterval : e'.intervalSeconds = e.intervalSeconds := by rw [h.same]
  exact ⟨by rw [hinterval]; exact he.positive, by rw [hinterval]; exact he.increment_lt, h.valid⟩

end Timer
