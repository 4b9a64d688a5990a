/-
# What each function of `timer.c` does in memory

`Represents` connects the blocks with the manager of `TimerManager`: the chain from `head`
with the copy of each name, the size and the mutex, and no other block.  One specification
for each function says that it keeps this, with the manager that the function of
`TimerManager` gives, and what the functions allocate on the way is either linked in or
given back.
-/
import RouterTools.TimerMemory

namespace TimerMemory

open Blocks Timer

variable {P κ υ : Type} [DecidableEq P]

/-! ## The manager in memory -/

/-- An entry of the list, where it and the copy of its name stand. -/
structure Placed (P κ υ : Type) where
  address : P
  text : P
  entry : TimerEntry κ υ

/-- The node of an entry. -/
def Placed.node (x : Placed P κ υ) : P × Entry P κ υ :=
  (x.address, ⟨some x.text, x.entry.nextRunTime, x.entry.intervalSeconds, x.entry.callback,
    x.entry.userData⟩)

/-- What an entry owns besides its own block. -/
def owned (fields : Entry P κ υ) : List P := fields.name.toList

/-- The blocks of the manager `s`, besides which the memory is `frame`. -/
structure Represents (frame cells : P → Option (Block P κ υ)) (manager : P)
    (s : TimerManager κ υ) (es : List (Placed P κ υ)) : Prop where
  head : s.head = es.map Placed.entry
  fields : cells manager =
    some (.manager ⟨first (es.map Placed.node) none, s.mutex, s.size⟩)
  linked : Segment entries cells (es.map Placed.node) none
  texts : ∀ x ∈ es, cells x.text = some (.text x.entry.name)
  owns : Owns frame cells (manager :: blocks owned (es.map Placed.node))

variable {M : Machine P κ υ} {frame : P → Option (Block P κ υ)} {m : Memory P (Block P κ υ)}
  {manager : P} {s : TimerManager κ υ} {es : List (Placed P κ υ)}

omit [DecidableEq P] in
theorem readManager_ok {g : Manager P} (hg : m.cells manager = some (.manager g)) :
    read Block.asManager (some manager) m = (.ok g, m) :=
  read_ok hg rfl

theorem modifyManager_ok {g : Manager P} (hg : m.cells manager = some (.manager g))
    (f : Manager P → Manager P) :
    modifyManager (some manager) f m = (.ok (), m.set manager (.manager (f g))) := by
  rw [modifyManager, bind_ok (readManager_ok hg)]
  exact write_ok hg _

omit [DecidableEq P] in
theorem Represents.not_mem (h : Represents frame m.cells manager s es) :
    manager ∉ blocks owned (es.map Placed.node) :=
  (List.nodup_cons.mp h.owns.nodup).1

omit [DecidableEq P] in
theorem text_mem {x : Placed P κ υ} (hx : x ∈ es) : x.text ∈ blocks owned (es.map Placed.node) :=
  List.mem_flatMap.mpr ⟨x.node, List.mem_map_of_mem hx, by simp [Placed.node, owned]⟩

/-- The manager block is written. -/
theorem Represents.setManager (h : Represents frame m.cells manager s es) (mutex : Option ThreadId)
    (size : ℤ) :
    Represents frame
      (m.set manager (.manager ⟨first (es.map Placed.node) none, mutex, size⟩)).cells manager
      { s with mutex := mutex, size := size } es := by
  refine ⟨h.head, Function.update_self _ _ _, ?_, ?_, h.owns.set List.mem_cons_self _⟩
  · exact h.linked.update (fun hmem => h.not_mem (mem_blocks_of_mem_addresses hmem)) _
  · intro x hx
    have hne : x.text ≠ manager := by
      intro heq
      exact h.not_mem (heq ▸ text_mem hx)
    rw [Memory.set_cells, Function.update_of_ne hne, h.texts x hx]

/-- **`pthread_mutex_lock`.** -/
theorem lock_ok (h : Represents frame m.cells manager s es) (self : ThreadId) :
    ∃ m', lock (some manager) self m = (.ok (), m') ∧
      Represents frame m'.cells manager (s.lock self) es ∧ m'.answers = m.answers :=
  ⟨_, modifyManager_ok h.fields _, h.setManager (some self) s.size, rfl⟩

/-- **`pthread_mutex_unlock`.** -/
theorem unlock_ok (h : Represents frame m.cells manager s es) :
    ∃ m', unlock (some manager) m = (.ok (), m') ∧
      Represents frame m'.cells manager s.unlock es ∧ m'.answers = m.answers :=
  ⟨_, modifyManager_ok h.fields _, h.setManager none s.size, rfl⟩

/-! ## Searching -/

omit [DecidableEq P] in
theorem hasName_ok (name : Name) {x : Placed P κ υ}
    (hx : m.cells x.text = some (.text x.entry.name)) :
    hasName name x.node.2 m = (.ok (decide (x.entry.name = name)), m) := by
  have hread : Blocks.read Block.asText x.node.2.name m = (.ok x.entry.name, m) := read_ok hx rfl
  rw [hasName, if_neg (by simp [Placed.node]), bind_ok hread]
  rfl

omit [DecidableEq P] in
/-- The search stops in front of the first entry of the name. -/
theorem search_ok (h : Represents frame m.cells manager s es) {before after : List (Placed P κ υ)}
    (hes : es = before ++ after) {name : Name} (hbefore : ∀ x ∈ before, x.entry.name ≠ name)
    (hafter : ∀ x ∈ after.head?, x.entry.name = name) (hfuel : es.length < M.listFuel) :
    search M (some manager) name m =
      (.ok (lastOr none (before.map Placed.node), first (after.map Placed.node) none), m) := by
  subst hes
  have hlen : (before.map Placed.node).length < M.listFuel := by
    rw [List.length_map]
    rw [List.length_append] at hfuel
    omega
  rw [search, bind_ok (readManager_ok h.fields), List.map_append]
  refine walk_ok _ _ (by rw [← List.map_append]; exact h.linked) ?_ ?_ hlen none
  · intro y hy
    obtain ⟨x, hx, rfl⟩ := List.mem_map.mp hy
    rw [bind_ok (hasName_ok name (h.texts x (List.mem_append_left _ hx))),
      decide_eq_false (hbefore x hx)]
    rfl
  · intro y hy
    rw [List.head?_map, Option.mem_def, Option.map_eq_some_iff] at hy
    obtain ⟨x, hx, rfl⟩ := hy
    have hmem : x ∈ before ++ after := List.mem_append_right _ (List.mem_of_head? hx)
    rw [bind_ok (hasName_ok name (h.texts x hmem)), decide_eq_true (hafter x hx)]
    rfl

omit [DecidableEq P] in
theorem Represents.names (h : Represents frame m.cells manager s es) :
    s.names = es.map fun x => x.entry.name := by
  rw [TimerManager.names, h.head, List.map_map]
  rfl

omit [DecidableEq P] in
/-- An absent name is found nowhere. -/
theorem search_absent (h : Represents frame m.cells manager s es) {name : Name}
    (hname : name ∉ s.names) (hfuel : es.length < M.listFuel) :
    search M (some manager) name m = (.ok (lastOr none (es.map Placed.node), none), m) := by
  rw [h.names] at hname
  refine search_ok h (List.append_nil es).symm (fun x hx heq => ?_) (fun x hx => by cases hx) hfuel
  exact hname (heq ▸ List.mem_map_of_mem hx)

omit [DecidableEq P] in
/-- A present name is found at its first entry. -/
theorem search_present (h : Represents frame m.cells manager s es) {name : Name}
    (hname : name ∈ s.names) (hfuel : es.length < M.listFuel) :
    ∃ before x after, es = before ++ x :: after ∧
      KeyedList.remove TimerEntry.name s.head name = (before ++ after).map Placed.entry ∧
      search M (some manager) name m =
        (.ok (lastOr none (before.map Placed.node), some x.address), m) := by
  rw [h.names] at hname
  obtain ⟨before, x, after, hes, hx, hbefore, hremove⟩ := KeyedList.exists_remove_eq hname
  refine ⟨before, x, after, hes, ?_, search_ok h hes (fun y hy heq => ?_) ?_ hfuel⟩
  · rw [h.head, KeyedList.remove, List.eraseP_map]
    exact congrArg (List.map Placed.entry) hremove
  · exact hbefore (heq ▸ List.mem_map_of_mem hy)
  · intro y hy
    cases hy
    exact hx

/-! ## Adding -/

/-- A new entry and its name are linked in at the head. -/
theorem Represents.cons (h : Represents frame m.cells manager s es) {x : Placed P κ υ}
    (haddress : m.cells x.address = none) (htext : m.cells x.text = none)
    (hne : x.text ≠ x.address) {m₁ : Memory P (Block P κ υ)}
    (hcells : m₁.cells = Function.update (Function.update m.cells x.address
      (some (entries.node x.node.2 (first (es.map Placed.node) none)))) x.text
      (some (.text x.entry.name))) (mutex : Option ThreadId) (size : ℤ) :
    Represents frame (m₁.set manager (.manager ⟨some x.address, mutex, size⟩)).cells manager
      { head := x.entry :: s.head, mutex := mutex, size := size } (x :: es) := by
  have hout₁ := h.owns.not_mem haddress
  have hout₂ := h.owns.not_mem htext
  rw [List.mem_cons, not_or] at hout₁ hout₂
  have howns : Owns frame m₁.cells
      (x.text :: x.address :: manager :: blocks owned (es.map Placed.node)) := by
    rw [hcells]
    exact (h.owns.alloc haddress _).alloc (by rw [Function.update_of_ne hne, htext]) _
  have hlinked : Segment entries m₁.cells (es.map Placed.node) none := by
    rw [hcells]
    exact (h.linked.update (fun hmem => hout₁.2 (mem_blocks_of_mem_addresses hmem)) _).update
      (fun hmem => hout₂.2 (mem_blocks_of_mem_addresses hmem)) _
  have haddress₁ : m₁.cells x.address =
      some (entries.node x.node.2 (first (es.map Placed.node) none)) := by
    rw [hcells, Function.update_of_ne hne.symm, Function.update_self]
  have htext₁ : m₁.cells x.text = some (.text x.entry.name) := by
    rw [hcells, Function.update_self]
  refine ⟨by rw [List.map_cons, h.head], Function.update_self _ _ _, ⟨?_, ?_⟩, ?_, ?_⟩
  · rw [Memory.set_cells]
    show Function.update m₁.cells manager _ x.address = _
    rw [Function.update_of_ne hout₁.1, haddress₁]
  · exact hlinked.update (fun hmem => h.not_mem (mem_blocks_of_mem_addresses hmem)) _
  · refine List.forall_mem_cons.mpr ⟨?_, fun y hy => ?_⟩
    · rw [Memory.set_cells, Function.update_of_ne hout₂.1, htext₁]
    · have hy₁ : y.text ≠ manager := fun heq => h.not_mem (heq ▸ text_mem hy)
      have hy₂ : y.text ≠ x.text := fun heq => hout₂.2 (heq ▸ text_mem hy)
      have hy₃ : y.text ≠ x.address := fun heq => hout₁.2 (heq ▸ text_mem hy)
      rw [Memory.set_cells, Function.update_of_ne hy₁, hcells, Function.update_of_ne hy₂,
        Function.update_of_ne hy₃, h.texts y hy]
  · refine (howns.set (by simp) _).perm ?_
    have hmiddle : ([x.text, x.address] ++ manager :: blocks owned (es.map Placed.node)).Perm
        (manager :: ([x.text, x.address] ++ blocks owned (es.map Placed.node))) :=
      List.perm_middle
    exact hmiddle.trans (List.Perm.cons manager (List.Perm.swap x.address x.text _))

/-- The last part of `timer_add`, when the clock is read. -/
theorem linkEntry_some (h : Represents frame m.cells manager s es) {q t : P} {e : Entry P κ υ}
    {next : Option P} {name : Name} (hq : m.cells q = none) (ht : m.cells t = none) (hne : t ≠ q)
    (he : e.name = some t) {m₁ : Memory P (Block P κ υ)}
    (hcells : m₁.cells = Function.update (Function.update m.cells q (some (entries.node e next))) t
      (some (.text name)))
    (intervalSeconds : Double) (callback : κ) (userData : υ) (now : ClockTime) :
    Ends (linkEntry (some manager) (some q) intervalSeconds callback userData (some now)) m₁
      (fun r m' => r = .ok () ∧ m'.answers = m₁.answers ∧ Represents frame m'.cells manager
        { head := newEntry name intervalSeconds callback userData now :: s.head
          mutex := none
          size := s.size + 1 }
        (⟨q, t, newEntry name intervalSeconds callback userData now⟩ :: es))
      (fun _ _ => False) := by
  obtain ⟨text, nextRunTime, interval, callback', userData'⟩ := e
  cases he
  have hout₁ := h.owns.not_mem hq
  have hout₂ := h.owns.not_mem ht
  rw [List.mem_cons, not_or] at hout₁ hout₂
  have hq₁ : m₁.cells q =
      some (entries.node ⟨some t, nextRunTime, interval, callback', userData'⟩ next) := by
    rw [hcells, Function.update_of_ne hne.symm, Function.update_self]
  have hmanager : m₁.cells manager =
      some (.manager ⟨first (es.map Placed.node) none, s.mutex, s.size⟩) := by
    rw [hcells, Function.update_of_ne (Ne.symm hout₂.1), Function.update_of_ne (Ne.symm hout₁.1),
      h.fields]
  -- what is written to the entry does not touch the manager
  have hkeep : ∀ v, (m₁.set q v).cells manager = m₁.cells manager := fun v =>
    Function.update_of_ne (Ne.symm hout₁.1) _ _
  let x : Placed P κ υ := ⟨q, t, newEntry name intervalSeconds callback userData now⟩
  have hlink : (m₁.set q (entries.node x.node.2 (first (es.map Placed.node) none))).cells =
      Function.update (Function.update m.cells q
        (some (entries.node x.node.2 (first (es.map Placed.node) none)))) t
        (some (.text name)) := by
    rw [Memory.set_cells, hcells, Function.update_comm hne, Function.update_idem]
  have hrep := h.cons (x := x) hq ht hne hlink none (s.size + 1)
  refine ends_bind_ok (entries.modify_ok hq₁ _) ?_
  refine ends_bind_ok (entries.modify_ok (Function.update_self _ _ _) _) ?_
  rw [Memory.set_set]
  refine ends_bind_ok (entries.modify_ok (Function.update_self _ _ _) _) ?_
  rw [Memory.set_set]
  refine ends_bind_ok (readManager_ok ((hkeep _).trans hmanager)) ?_
  refine ends_bind_ok (entries.setNext_ok (Function.update_self _ _ _) _) ?_
  rw [Memory.set_set]
  refine ends_bind_ok (modifyManager_ok ((hkeep _).trans hmanager) _) ?_
  refine ends_bind_ok (modifyManager_ok (Function.update_self _ _ _) _) ?_
  rw [Memory.set_set]
  refine ends_bind_ok (modifyManager_ok (Function.update_self _ _ _) _) ?_
  rw [Memory.set_set]
  exact ends_of_ok rfl ⟨rfl, rfl, hrep⟩

/-- The memory represents `s`, with at most `k` entries more than `es`. -/
def Becomes (frame : P → Option (Block P κ υ)) (manager : P) (es : List (Placed P κ υ)) (k : ℕ)
    (s : TimerManager κ υ) (m : Memory P (Block P κ υ)) : Prop :=
  ∃ es', Represents frame m.cells manager s es' ∧ es'.length ≤ es.length + k

/-- The resources of `timer_add`, when the allocator goes on with these answers. -/
def resources (answers : List Bool) (clock : Option ClockTime) : AddResources :=
  ⟨answers[0]?.getD false, answers[1]?.getD false, clock⟩

/-- How many of its allocations `timer_add` has asked for, by what it answers. -/
def allocations : Except TimerAddError Unit → ℕ
  | .error .invalidParameters => 0
  | .error .nameExists => 0
  | .error .entryAllocation => 1
  | .error .nameAllocation => 2
  | .error .clock => 2
  | .ok () => 2

/-- A failing exit of `timer_add`, with nothing of what it allocated left. -/
theorem unlock_exit (h : Represents frame m.cells manager s es) {m₁ : Memory P (Block P κ υ)}
    (hcells : m₁.cells = m.cells) (err : TimerAddError) :
    Ends (do
        unlock (some manager)
        return .error err : Prog P (Block P κ υ) (Except TimerAddError Unit)) m₁
      (fun r m' => r = .error err ∧ m'.answers = m₁.answers ∧
        Becomes frame manager es 1 s.unlock m') (fun _ _ => False) := by
  rw [← hcells] at h
  obtain ⟨m', hrun, hrep, href⟩ := unlock_ok h
  exact ends_bind_ok hrun (ends_of_ok rfl ⟨rfl, href, es, hrep, Nat.le_succ _⟩)

/-- The last part of `timer_add`, when the clock cannot be read: both blocks are given back. -/
theorem linkEntry_none (h : Represents frame m.cells manager s es) {q t : P} {e : Entry P κ υ}
    {next : Option P} {name : Name} (hq : m.cells q = none) (ht : m.cells t = none) (hne : t ≠ q)
    (he : e.name = some t) {m₁ : Memory P (Block P κ υ)}
    (hcells : m₁.cells = Function.update (Function.update m.cells q (some (entries.node e next))) t
      (some (.text name)))
    (intervalSeconds : Double) (callback : κ) (userData : υ) :
    Ends (linkEntry (some manager) (some q) intervalSeconds callback userData none) m₁
      (fun r m' => r = .error .clock ∧ m'.answers = m₁.answers ∧
        Becomes frame manager es 1 s.unlock m') (fun _ _ => False) := by
  obtain ⟨howns, hq₁, -⟩ := (owns_nil m.cells).given hq rfl
  have ht' : Function.update m.cells q (some (entries.node e next)) t = none :=
    (Function.update_of_ne hne _ _).trans ht
  obtain ⟨howns₁, ht₁, hkept⟩ := howns.given ht' hcells
  obtain ⟨-, hq₁⟩ := hkept q _ hq₁
  have hq₂ : (m₁.erase t).cells q = some (entries.node e next) :=
    (Function.update_of_ne hne.symm _ _).trans hq₁
  have hback : ((m₁.erase t).erase q).cells = m.cells := howns₁.free.free.eq_of_nil
  refine ends_bind_ok (entries.get_ok hq₁) ?_
  dsimp only
  rw [he]
  refine ends_bind_ok (free_ok ht₁) (ends_bind_ok (free_ok hq₂) ?_)
  exact unlock_exit h hback .clock

omit [DecidableEq P] in
theorem find_isSome (name : Name) :
    (Timer.findTimerEntryNolock name s.head).isSome ↔ name ∈ s.names := by
  rw [findTimerEntryNolock_eq_lookup, KeyedList.lookup_isSome_iff]
  exact Iff.rfl

/-- **`timer_add`, with the lock held.** -/
theorem timerAddLocked_ends (h : Represents frame m.cells manager s es)
    (hfuel : es.length < M.listFuel) (name : Name) (intervalSeconds : Double) (callback : κ)
    (userData : υ) (clock : Option ClockTime) :
    Ends (timerAddLocked M (some manager) name intervalSeconds callback userData clock) m
      (fun r m' => ∃ used s', Answered used m m' ∧ used.length = allocations r ∧
        (∀ later, Timer.timerAddLocked s name intervalSeconds callback userData
          (resources (used ++ later) clock) = (s', r)) ∧ Becomes frame manager es 1 s' m')
      (fun _ _ => False) := by
  by_cases hname : name ∈ s.names
  · -- the name is taken
    have hfound : (Timer.findTimerEntryNolock name s.head).isSome = true :=
      (find_isSome name).mpr hname
    obtain ⟨before, x, after, -, -, hsearch⟩ := search_present h hname hfuel
    have hfind : findTimerEntryNolock M (some manager) name m = (.ok (some x.address), m) := by
      rw [findTimerEntryNolock, bind_ok hsearch]
      rfl
    refine ends_bind_ok hfind ?_
    refine (unlock_exit h rfl .nameExists).mono ?_ (fun _ _ hE => hE)
    rintro r m' ⟨rfl, href, hbecomes⟩
    refine ⟨[], _, .of_eq href, rfl, fun later => ?_, hbecomes⟩
    rw [Timer.timerAddLocked, if_pos hfound]
  · have hnot : ¬ (Timer.findTimerEntryNolock name s.head).isSome = true :=
      mt (find_isSome name).mp hname
    have hfind : findTimerEntryNolock M (some manager) name m = (.ok none, m) := by
      rw [findTimerEntryNolock, bind_ok (search_absent h hname hfuel)]
      rfl
    refine ends_bind_ok hfind ?_
    refine ends_bind_malloc _ _ (fun m₁ hcells₁ hused₁ => ?_) fun q m₁ hq hcells₁ hused₁ => ?_
    · -- no entry
      refine (unlock_exit h hcells₁ .entryAllocation).mono ?_ (fun _ _ hE => hE)
      rintro r m' ⟨rfl, href, hbecomes⟩
      refine ⟨[false], _, hused₁.congr rfl href, rfl, fun later => ?_, hbecomes⟩
      rw [Timer.timerAddLocked, if_neg hnot, if_pos (by simp [resources])]
    · obtain ⟨howns₁, hq₁, -⟩ := (owns_nil m.cells).given hq hcells₁
      refine ends_bind_malloc _ _ (fun m₂ hcells₂ hused₂ => ?_) fun t m₂ ht hcells₂ hused₂ => ?_
      · -- no copy of the name: the entry is given back
        rw [← hcells₂] at hq₁ howns₁
        refine ends_bind_ok (entries.modify_ok hq₁ _) ?_
        refine ends_bind_ok (free_ok (Function.update_self _ _ _)) ?_
        have hback : ∀ v, ((m₂.set q v).erase q).cells = m.cells := fun v =>
          ((howns₁.set List.mem_cons_self _).free).eq_of_nil
        refine (unlock_exit h (hback _) .nameAllocation).mono ?_ (fun _ _ hE => hE)
        rintro r m' ⟨rfl, href, hbecomes⟩
        refine ⟨[true, false], _, (hused₁.trans hused₂).congr rfl href, rfl, fun later => ?_,
          hbecomes⟩
        rw [Timer.timerAddLocked, if_neg hnot, if_neg (by simp [resources]),
          if_pos (by simp [resources])]
      · obtain ⟨-, -, hkept⟩ := howns₁.given ht hcells₂
        obtain ⟨hne, hq₂⟩ := hkept q _ hq₁
        have ht₀ : m.cells t = none := by
          rw [hcells₁, Function.update_of_ne hne.symm] at ht
          exact ht
        have hcells₃ : ∀ v, (m₂.set q v).cells =
            Function.update (Function.update m.cells q (some v)) t (some (.text name)) := by
          intro v
          rw [Memory.set_cells, hcells₂, hcells₁, Function.update_comm hne,
            Function.update_idem, Function.update_comm hne.symm]
        refine ends_bind_ok (entries.modify_ok hq₂ _) ?_
        rw [if_neg (by simp)]
        cases clock with
        | none =>
            refine (linkEntry_none (e := { M.junkEntry with name := some t }) h hq ht₀ hne.symm rfl
              (hcells₃ _) intervalSeconds callback userData).mono ?_ (fun _ _ hE => hE)
            rintro r m' ⟨rfl, href, hbecomes⟩
            refine ⟨[true, true], _, (hused₁.trans hused₂).congr rfl href, rfl, fun later => ?_,
              hbecomes⟩
            rw [Timer.timerAddLocked, if_neg hnot, if_neg (by simp [resources]),
              if_neg (by simp [resources])]
            rfl
        | some now =>
            refine (linkEntry_some (e := { M.junkEntry with name := some t }) h hq ht₀ hne.symm rfl
              (hcells₃ _) intervalSeconds callback userData now).mono ?_ (fun _ _ hE => hE)
            rintro r m' ⟨rfl, href, hrep⟩
            refine ⟨[true, true], _, (hused₁.trans hused₂).congr rfl href, rfl, fun later => ?_,
              _, hrep, Nat.le_refl _⟩
            rw [Timer.timerAddLocked, if_neg hnot, if_neg (by simp [resources]),
              if_neg (by simp [resources])]
            rfl

/-! ## Removing -/

omit [DecidableEq P] in
/-- A copy of a name stands neither at a node nor at the manager. -/
theorem Represents.text_ne (h : Represents frame m.cells manager s es) {x : Placed P κ υ}
    (hx : x ∈ es) {a : P} (ha : a ∈ manager :: addresses (es.map Placed.node)) : x.text ≠ a := by
  rintro rfl
  have htext := h.texts x hx
  rcases List.mem_cons.mp ha with heq | hmem
  · rw [heq, h.fields] at htext
    cases htext
  · obtain ⟨d, r, hnode⟩ := h.linked.exists_node hmem
    rw [hnode] at htext
    cases htext

/-- **An entry is taken out of the list**, the link behind the part before it redirected, and
its blocks are freed. -/
theorem Represents.unlink {before after : List (Placed P κ υ)} {x : Placed P κ υ}
    (h : Represents frame m.cells manager s (before ++ x :: after)) (mutex : Option ThreadId)
    (size : ℤ) :
    ∃ m₁, relinkAt entries
        (fun head => modifyManager (some manager) fun fields => { fields with head := head })
        (lastOr none (before.map Placed.node)) (first (after.map Placed.node) none) m =
          (.ok (), m₁) ∧
      m₁.answers = m.answers ∧
      m₁.cells manager = some (.manager
        ⟨first ((before ++ after).map Placed.node) none, s.mutex, s.size⟩) ∧
      m₁.cells x.address = m.cells x.address ∧ m₁.cells x.text = m.cells x.text ∧
      Represents frame
        (((m₁.set manager (.manager ⟨first ((before ++ after).map Placed.node) none, mutex,
          size⟩)).erase x.text).erase x.address).cells manager
        { head := (before ++ after).map Placed.entry, mutex := mutex, size := size }
        (before ++ after) := by
  have hperm : (manager :: blocks owned ((before ++ x :: after).map Placed.node)).Perm
      (x.text :: x.address :: manager :: blocks owned ((before ++ after).map Placed.node)) := by
    rw [List.map_append, List.map_append, List.map_cons]
    refine (List.Perm.cons manager (blocks_middle owned _ x.node _)).trans ?_
    exact (List.reverse_perm [manager, x.address, x.text]).symm.append_right _
  have howns := h.owns.perm hperm
  obtain ⟨htext, hnodup⟩ := List.nodup_cons.mp howns.nodup
  obtain ⟨haddress, hnodup⟩ := List.nodup_cons.mp hnodup
  obtain ⟨hmanager, -⟩ := List.nodup_cons.mp hnodup
  rw [List.mem_cons, not_or] at htext
  -- the addresses of the nodes that stay
  have hin : ∀ a ∈ manager :: addresses ((before ++ after).map Placed.node),
      a ∈ manager :: blocks owned ((before ++ after).map Placed.node) := by
    intro a ha
    exact (List.mem_cons.mp ha).elim (fun heq => heq ▸ List.mem_cons_self)
      fun hmem => List.mem_cons_of_mem _ (mem_blocks_of_mem_addresses hmem)
  have hlinked := h.linked
  have hfields := h.fields
  rw [List.map_append, List.map_cons] at hlinked hfields
  rw [first_append] at hfields
  obtain ⟨hbefore, -, hafter⟩ := segment_append.mp hlinked
  have hkept : (addresses ((before ++ after).map Placed.node)).Nodup :=
    (List.nodup_cons.mp hnodup).2.sublist (addresses_sublist owned _)
  have houtAll : manager ∉ addresses ((before ++ after).map Placed.node) := fun hmem =>
    hmanager (mem_blocks_of_mem_addresses hmem)
  have hout := houtAll
  rw [List.map_append, addresses_append] at hkept hout
  rw [List.mem_append, not_or] at hout
  have hset : ∀ head, modifyManager (some manager) (fun fields => { fields with head := head }) m =
      (.ok (), m.set manager (.manager ⟨head, s.mutex, s.size⟩)) := fun _ =>
    modifyManager_ok h.fields _
  obtain ⟨a, v, hrun, ha, hman, hbefore'⟩ := relinkAt_ok (before.map Placed.node) hset hfields
    hout.1 (List.nodup_append.mp hkept).1 hbefore (first (after.map Placed.node) none)
  have ha' : a ∈ manager :: addresses ((before ++ after).map Placed.node) := by
    rw [List.map_append, addresses_append]
    exact List.mem_cons.mpr ((List.mem_cons.mp ha).imp_right fun hmem =>
      List.mem_append_left _ hmem)
  have haddress_a : x.address ≠ a := fun heq => haddress (heq ▸ hin a ha')
  have htext_a : x.text ≠ a := fun heq => htext.2 (heq ▸ hin a ha')
  refine ⟨_, hrun, rfl, ?_, Function.update_of_ne haddress_a _ _, Function.update_of_ne htext_a _ _,
    ?_⟩
  · rw [hman, List.map_append, first_append]
  · have hne₁ : manager ≠ x.address := fun heq => haddress (heq ▸ List.mem_cons_self)
    have hne₂ : manager ≠ x.text := fun heq => htext.2 (heq ▸ List.mem_cons_self)
    have hlinked₁ : Segment entries (m.set a v).cells ((before ++ after).map Placed.node) none := by
      rw [List.map_append]
      refine segment_append.mpr ⟨hbefore', hafter.update ?_ _⟩
      rcases List.mem_cons.mp ha with rfl | hmem
      · exact hout.2
      · exact fun hmem' => (List.nodup_append.mp hkept).2.2 a hmem a hmem' rfl
    refine ⟨rfl, ?_, ?_, ?_, ?_⟩
    · rw [Memory.erase_cells, Function.update_of_ne hne₁, Memory.erase_cells,
        Function.update_of_ne hne₂, Memory.set_cells, Function.update_self]
    · refine ((hlinked₁.update houtAll _).update (fun hmem => ?_) _).update (fun hmem => ?_) _
      · exact htext.2 (List.mem_cons_of_mem _ (mem_blocks_of_mem_addresses hmem))
      · exact haddress (List.mem_cons_of_mem _ (mem_blocks_of_mem_addresses hmem))
    · intro y hy
      have hy' : y ∈ before ++ x :: after := by
        simp only [List.mem_append, List.mem_cons] at hy ⊢
        tauto
      have hall : ∀ b ∈ manager :: addresses ((before ++ after).map Placed.node), y.text ≠ b := by
        intro b hb
        refine h.text_ne hy' ?_
        simp only [List.map_append, List.map_cons, addresses_append, addresses_cons, List.mem_cons,
          List.mem_append] at hb ⊢
        tauto
      have hy₁ : y.text ≠ x.address := fun heq =>
        haddress (heq ▸ List.mem_cons_of_mem _ (text_mem hy))
      have hy₂ : y.text ≠ x.text := fun heq =>
        htext.2 (heq ▸ List.mem_cons_of_mem _ (text_mem hy))
      have hy₃ : y.text ≠ manager := hall _ List.mem_cons_self
      have hy₄ : y.text ≠ a := hall a ha'
      rw [Memory.erase_cells, Function.update_of_ne hy₁, Memory.erase_cells,
        Function.update_of_ne hy₂, Memory.set_cells, Function.update_of_ne hy₃, Memory.set_cells,
        Function.update_of_ne hy₄, h.texts y hy']
    · exact ((howns.set (List.mem_cons_of_mem _ (List.mem_cons_of_mem _ (hin a ha'))) v).set
        (by simp) _).free.free

/-- **`timer_remove`, with the lock held.** -/
theorem timerRemoveLocked_ends (h : Represents frame m.cells manager s es)
    (hfuel : es.length < M.listFuel) (name : Name) :
    Ends (timerRemoveLocked M (some manager) name) m
      (fun r m' => m'.answers = m.answers ∧ r = (Timer.timerRemoveLocked s name).2 ∧
        Becomes frame manager es 0 (Timer.timerRemoveLocked s name).1 m') (fun _ _ => False) := by
  rw [timerRemoveLocked_eq]
  by_cases hname : name ∈ s.names
  · obtain ⟨before, x, after, rfl, hremove, hsearch⟩ := search_present h hname hfuel
    have hfind : findTimerEntryWithPreviousNolock M (some manager) name m =
        (.ok (lastOr none (before.map Placed.node), some x.address), m) := by
      rw [findTimerEntryWithPreviousNolock, bind_ok hsearch]
      rfl
    have hnode : m.cells x.address =
        some (entries.node x.node.2 (first (after.map Placed.node) none)) := by
      have hlinked := h.linked
      rw [List.map_append, List.map_cons] at hlinked
      exact hlinked.getNode
    have hne₁ : x.address ≠ manager := by
      rintro heq
      rw [heq, h.fields] at hnode
      cases hnode
    have hne₂ : x.text ≠ manager := h.text_ne (by simp) List.mem_cons_self
    have hne₃ : x.address ≠ x.text := (h.text_ne (by simp) (by simp [addresses, Placed.node])).symm
    obtain ⟨m₁, hrun, href₁, hman, haddress, htext, hrep⟩ := h.unlink s.mutex (s.size - 1)
    have hnode₂ : ∀ v, (m₁.set manager v).cells x.address =
        some (entries.node x.node.2 (first (after.map Placed.node) none)) := fun v => by
      rw [Memory.set_cells, Function.update_of_ne hne₁, haddress, hnode]
    have htext₂ : ∀ v, (m₁.set manager v).cells x.text = some (.text x.entry.name) := fun v => by
      rw [Memory.set_cells, Function.update_of_ne hne₂, htext, h.texts x (by simp)]
    have hnode₃ : ∀ v, ((m₁.set manager v).erase x.text).cells x.address =
        some (entries.node x.node.2 (first (after.map Placed.node) none)) := fun v => by
      rw [Memory.erase_cells, Function.update_of_ne hne₃, hnode₂]
    obtain ⟨m', hunlock, hrep', href'⟩ := unlock_ok hrep
    rw [if_pos hname]
    refine ends_bind_ok hfind (ends_bind_ok (entries.get_ok hnode) (ends_bind_ok hrun ?_))
    refine ends_bind_ok (modifyManager_ok hman _) (ends_bind_ok (entries.get_ok (hnode₂ _)) ?_)
    refine ends_bind_ok (free_ok (htext₂ _)) (ends_bind_ok (free_ok (hnode₃ _)) ?_)
    refine ends_bind_ok hunlock (ends_of_ok rfl ⟨href'.trans href₁, rfl, before ++ after, ?_, ?_⟩)
    · rw [hremove]
      exact hrep'
    · simp only [List.length_append, List.length_cons]
      omega
  · have hfind : findTimerEntryWithPreviousNolock M (some manager) name m =
        (.ok (none, none), m) := by
      rw [findTimerEntryWithPreviousNolock, bind_ok (search_absent h hname hfuel)]
      rfl
    obtain ⟨m', hunlock, hrep', href'⟩ := unlock_ok h
    rw [if_neg hname]
    exact ends_bind_ok hfind
      (ends_bind_ok hunlock (ends_of_ok rfl ⟨href', rfl, es, hrep', Nat.le_refl _⟩))

/-! ## Updating -/

/-- **The catch-up loop** writes the point it arrives at into the entry. -/
theorem catchUp_ends (currentTime : Timespec) {p : P} {e : Entry P κ υ} {next : Option P} (fuel : ℕ)
    (hp : m.cells p = some (entries.node e next)) :
    Ends (catchUp currentTime (some p) fuel) m
      (fun _ m' => m'.answers = m.answers ∧
        ∃ t, Timer.catchUp fuel currentTime e.intervalSeconds e.nextRunTime = some t ∧
          m'.cells =
            Function.update m.cells p (some (entries.node { e with nextRunTime := t } next)))
      (fun fault m' => fault = .outOfFuel ∧ m'.answers = m.answers ∧
        Timer.catchUp fuel currentTime e.intervalSeconds e.nextRunTime = none) := by
  induction fuel generalizing m e with
  | zero => exact ends_of_error rfl ⟨rfl, rfl, rfl⟩
  | succ fuel ih =>
      refine ends_bind_ok (entries.get_ok hp) ?_
      by_cases hdue : timespecCompare currentTime e.nextRunTime ≥ 0
      · have hloop : Timer.catchUp (fuel + 1) currentTime e.intervalSeconds e.nextRunTime =
            Timer.catchUp fuel currentTime e.intervalSeconds
              (timespecAddDouble e.nextRunTime e.intervalSeconds) := by
          rw [Timer.catchUp, Loop.whileLoop, if_pos (decide_eq_true hdue)]
          rfl
        dsimp only
        rw [if_pos hdue, hloop]
        refine ends_bind_ok (entries.modify_ok hp _) ((ih (Function.update_self _ _ _)).mono ?_ ?_)
        · rintro - m' ⟨href, t, ht, hcells⟩
          refine ⟨href, t, ht, ?_⟩
          rw [hcells, Memory.set_cells, Function.update_idem]
        · exact fun fault m' hE => hE
      · have hloop : Timer.catchUp (fuel + 1) currentTime e.intervalSeconds e.nextRunTime =
            some e.nextRunTime := by
          rw [Timer.catchUp, Loop.whileLoop, if_neg (by simpa using hdue)]
        dsimp only
        rw [if_neg hdue, hloop]
        exact ends_of_ok rfl ⟨rfl, _, rfl, by rw [← hp, Function.update_eq_self]⟩

/-- An entry with another point in time. -/
def Placed.advance (x : Placed P κ υ) (t : Timespec) : Placed P κ υ :=
  { x with entry := { x.entry with nextRunTime := t } }

/-- The time of an entry is written. -/
theorem Represents.advance {before after : List (Placed P κ υ)} {x : Placed P κ υ}
    (h : Represents frame m.cells manager s (before ++ x :: after)) (t : Timespec)
    {m₁ : Memory P (Block P κ υ)} (hcells : m₁.cells = Function.update m.cells x.address
      (some (entries.node (x.advance t).node.2 (first (after.map Placed.node) none)))) :
    Represents frame m₁.cells manager
      { s with head := (before ++ x.advance t :: after).map Placed.entry }
      (before ++ x.advance t :: after) := by
  have hblocks : blocks owned ((before ++ x.advance t :: after).map Placed.node) =
      blocks owned ((before ++ x :: after).map Placed.node) := by
    rw [List.map_append, List.map_append, List.map_cons, List.map_cons, blocks_append,
      blocks_append]
    rfl
  have hfirst : first ((before ++ x.advance t :: after).map Placed.node) none =
      first ((before ++ x :: after).map Placed.node) none := by
    cases before <;> rfl
  have hmem : x.address ∈ blocks owned ((before ++ x :: after).map Placed.node) :=
    mem_blocks_of_mem_addresses (by simp [addresses, Placed.node])
  have hne : manager ≠ x.address := fun heq => h.not_mem (heq ▸ hmem)
  have hnodup : (addresses ((before ++ x :: after).map Placed.node)).Nodup :=
    (List.nodup_cons.mp h.owns.nodup).2.sublist (addresses_sublist owned _)
  refine ⟨rfl, ?_, ?_, ?_, ?_⟩
  · rw [hcells, Function.update_of_ne hne, h.fields, hfirst]
  · have hlinked := h.linked
    rw [List.map_append, List.map_cons] at hlinked hnodup
    rw [hcells, List.map_append, List.map_cons]
    exact hlinked.setData hnodup _
  · intro y hy
    -- neither the copies of the names nor the names themselves change
    obtain ⟨y', hy', htext, hname⟩ : ∃ y' ∈ before ++ x :: after, y'.text = y.text ∧
        y'.entry.name = y.entry.name := by
      rcases List.mem_append.mp hy with hy | hy
      · exact ⟨y, List.mem_append_left _ hy, rfl, rfl⟩
      · rcases List.mem_cons.mp hy with rfl | hy
        · exact ⟨x, by simp, rfl, rfl⟩
        · exact ⟨y, by simp [hy], rfl, rfl⟩
    have hne' : y'.text ≠ x.address :=
      h.text_ne hy' (List.mem_cons_of_mem _ (by simp [addresses, Placed.node]))
    rw [← htext, ← hname, hcells, Function.update_of_ne hne', h.texts y' hy']
  · rw [hcells, hblocks]
    exact h.owns.set (List.mem_cons_of_mem _ hmem) _

/-- What an invocation shows to the callback. -/
def shown (i : Invocation κ υ) : κ × υ := (i.callback, i.userData)

omit [DecidableEq P] in
theorem invokeCallback_eq (x : Placed P κ υ) :
    invokeCallback x.node.2 = (Timer.invokeCallback x.entry).map shown := by
  obtain ⟨address, text, name, nextRunTime, intervalSeconds, callback, userData⟩ := x
  cases callback <;> rfl

/-- **One entry** of the traversal. -/
theorem updateEntry_ends (currentTime : Timespec) {before after : List (Placed P κ υ)}
    {x : Placed P κ υ} (h : Represents frame m.cells manager s (before ++ x :: after)) :
    Ends (updateEntry M currentTime (some x.address)) m
      (fun fired m' => m'.answers = m.answers ∧ ∃ t invocations,
        Timer.updateEntry M.fuel currentTime x.entry = some ((x.advance t).entry, invocations) ∧
        fired = invocations.map shown ∧
        Represents frame m'.cells manager
          { s with head := (before ++ x.advance t :: after).map Placed.entry }
          (before ++ x.advance t :: after))
      (fun fault m' => fault = .outOfFuel ∧ m'.answers = m.answers ∧
        Timer.updateEntry M.fuel currentTime x.entry = none) := by
  have hlinked := h.linked
  rw [List.map_append, List.map_cons] at hlinked
  have hnode := hlinked.getNode
  refine ends_bind_ok (entries.get_ok hnode) ?_
  by_cases hdue : timespecCompare currentTime x.entry.nextRunTime ≥ 0
  · dsimp only
    rw [if_pos (show timespecCompare currentTime x.node.2.nextRunTime ≥ 0 from hdue)]
    rw [Timer.updateEntry, if_pos hdue]
    refine Ends.bind ((catchUp_ends currentTime M.fuel hnode).mono (fun _ _ hQ => hQ) ?_) ?_
    · rintro fault m' ⟨hfault, href, hloop⟩
      have hloop' : Timer.catchUp M.fuel currentTime x.entry.intervalSeconds x.entry.nextRunTime =
          none := hloop
      exact ⟨hfault, href, by rw [hloop']⟩
    · rintro - m' ⟨href, t, hloop, hcells⟩
      have hloop' : Timer.catchUp M.fuel currentTime x.entry.intervalSeconds x.entry.nextRunTime =
          some t := hloop
      refine ends_of_ok rfl ⟨href, t, _, by rw [hloop']; rfl, invokeCallback_eq x, ?_⟩
      exact h.advance t hcells
  · dsimp only
    rw [if_neg (show ¬ timespecCompare currentTime x.node.2.nextRunTime ≥ 0 from hdue)]
    refine ends_of_ok rfl ⟨rfl, x.entry.nextRunTime, [], ?_, rfl, ?_⟩
    · rw [Timer.updateEntry, if_neg hdue]
      rfl
    · have hsame : m.cells = Function.update m.cells x.address (some (entries.node
          (x.advance x.entry.nextRunTime).node.2 (first (after.map Placed.node) none))) :=
        (Function.update_eq_self_iff.mpr hnode.symm).symm
      exact h.advance x.entry.nextRunTime hsame

/-- **The traversal of `timer_update`** does to every entry what `Timer.updateEntries` does. -/
theorem updateEntries_ends (currentTime : Timespec) (before after : List (Placed P κ υ))
    (h : Represents frame m.cells manager s (before ++ after)) {fuel : ℕ}
    (hfuel : after.length < fuel) :
    Ends (updateEntries M currentTime fuel (first (after.map Placed.node) none)) m
      (fun fired m' => m'.answers = m.answers ∧ ∃ after' invocations,
        Timer.updateEntries M.fuel currentTime (after.map Placed.entry) =
          some (after'.map Placed.entry, invocations) ∧
        fired = invocations.map shown ∧ after'.length = after.length ∧
        Represents frame m'.cells manager
          { s with head := (before ++ after').map Placed.entry } (before ++ after'))
      (fun fault m' => fault = .outOfFuel ∧ m'.answers = m.answers ∧
        Timer.updateEntries M.fuel currentTime (after.map Placed.entry) = none) := by
  obtain ⟨n, rfl⟩ : ∃ n, fuel = n + 1 := ⟨fuel - 1, by omega⟩
  induction after generalizing before m s n with
  | nil =>
      refine ends_of_ok rfl ⟨rfl, [], [], rfl, rfl, rfl, ?_⟩
      rw [← h.head]
      exact h
  | cons x after ih =>
      obtain ⟨k, rfl⟩ : ∃ k, n = k + 1 := ⟨n - 1, by rw [List.length_cons] at hfuel; omega⟩
      rw [List.length_cons] at hfuel
      show Ends (updateEntries M currentTime (k + 1 + 1) (some x.address)) m _ _
      rw [List.map_cons]
      refine Ends.bind ((updateEntry_ends currentTime h).mono (fun _ _ hQ => hQ) ?_) ?_
      · rintro fault m' ⟨hfault, href, hentry⟩
        exact ⟨hfault, href, by rw [Timer.updateEntries, hentry]⟩
      · rintro fired m₁ ⟨href₁, t, invocations, hentry, rfl, hrep₁⟩
        have hlinked := hrep₁.linked
        rw [List.map_append, List.map_cons] at hlinked
        refine ends_bind_ok (entries.get_ok hlinked.getNode) ?_
        have hrep₂ : Represents frame m₁.cells manager
            { s with head := (before ++ x.advance t :: after).map Placed.entry }
            (before ++ [x.advance t] ++ after) := by
          rw [List.append_assoc]
          exact hrep₁
        refine Ends.bind ((ih _ hrep₂ k (by omega)).mono (fun _ _ hQ => hQ) ?_) ?_
        · rintro fault m' ⟨hfault, href, hrest⟩
          exact ⟨hfault, href.trans href₁, by rw [Timer.updateEntries, hentry]; simp only [hrest]⟩
        · rintro fired' m' ⟨href, after', invocations', hrest, rfl, hlen, hrep⟩
          rw [List.append_assoc] at hrep
          refine ends_of_ok rfl ⟨href.trans href₁, x.advance t :: after',
            invocations ++ invocations', ?_, List.map_append.symm,
            by rw [List.length_cons, List.length_cons, hlen], hrep⟩
          rw [Timer.updateEntries, hentry]
          simp only [hrest, List.map_cons]

end TimerMemory
