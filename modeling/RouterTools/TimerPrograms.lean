/-
# Programs that use the timer manager

Each call does what `Timer.step` does, with the answers of the allocator for the resources
of the call (`callOf_ends`).  From this `timer_program_keeps_memory` follows, about whole
programs: they give back every block, and they do what a run of `Timer.step` does.
-/
import RouterTools.TimerMemorySpec

namespace TimerMemory

open Blocks Timer

variable {P κ υ : Type} [DecidableEq P] {M : Machine P κ υ} {frame : P → Option (Block P κ υ)}
  {m : Memory P (Block P κ υ)} {manager : P} {s : TimerManager κ υ} {es : List (Placed P κ υ)}

/-! ## Calls -/

/-- What is seen of an answer of `Timer.step`. -/
def observed : Timer.Answer κ υ → Answer κ υ
  | .added result => .added result
  | .removed result => .removed result
  | .updated fired => .updated (fired.map shown)
  | .size n => .size n

/-- A call, when the allocator goes on with these answers. -/
def Call.resolve (answers : List Bool) : Call κ υ → Timer.Call κ υ
  | .add name intervalSeconds callback userData clock =>
      .add name intervalSeconds callback userData (resources answers clock)
  | .remove name => .remove name
  | .update clock => .update clock
  | .getSize => .getSize

/-- The answers of the allocator that a call leaves to the next ones. -/
def left (answers : List Bool) : Timer.Answer κ υ → List Bool
  | .added result => answers.drop (allocations result)
  | _ => answers

/-- One call of a run of `Timer.step`, as far as it is seen, when the allocator goes on with the
answers beside the manager. -/
def resolvedStep (fuel : ℕ) (s : TimerManager κ υ × List Bool) (req : Request κ υ) :
    Option ((TimerManager κ υ × List Bool) × Answer κ υ) :=
  (Timer.step fuel s.1 ⟨req.self, req.call.resolve s.2⟩).map fun r =>
    ((r.1, left s.2 r.2), observed r.2)

/-- What a call on the manager ends in: the step does the same with the answers of the
allocator, and uses them up. -/
def Served (M : Machine P κ υ) (frame : P → Option (Block P κ υ)) (manager : P)
    (s : TimerManager κ υ) (es : List (Placed P κ υ)) (m : Memory P (Block P κ υ))
    (req : Request κ υ) (answer : Answer κ υ) (m' : Memory P (Block P κ υ)) : Prop :=
  ∃ used s', Answered used m m' ∧
    (∀ later, resolvedStep M.fuel (s, used ++ later) req = some ((s', later), answer)) ∧
    s'.mutex = none ∧ Becomes frame manager es 1 s' m'

/-- The call is stuck: a catch-up loop is still going. -/
def Stuck (M : Machine P κ υ) (s : TimerManager κ υ) (req : Request κ υ)
    (m : Memory P (Block P κ υ)) (fault : Fault) (m' : Memory P (Block P κ υ)) : Prop :=
  fault = .outOfFuel ∧ Answered [] m m' ∧ ∀ later, resolvedStep M.fuel (s, later) req = none

theorem add_ends (h : Represents frame m.cells manager s es) (hmutex : s.mutex = none)
    (hfuel : es.length < M.listFuel) (self : ThreadId) (name : Option Name)
    (intervalSeconds : Double) (callback : Option κ) (userData : υ) (clock : Option ClockTime) :
    Ends (callOf M (some manager) ⟨self, .add name intervalSeconds callback userData clock⟩) m
      (Served M frame manager s es m ⟨self, .add name intervalSeconds callback userData clock⟩)
      (fun _ _ => False) := by
  have hrefused : ∀ {x : Prog P (Block P κ υ) (Except TimerAddError Unit)},
      x m = (.ok (.error .invalidParameters), m) →
      (∀ res, Timer.timerAdd self s name intervalSeconds callback userData res =
        (s, .error .invalidParameters)) →
      Ends (do let result ← x; return .added result) m
        (Served M frame manager s es m ⟨self, .add name intervalSeconds callback userData clock⟩)
        (fun _ _ => False) := by
    intro x hx hadd
    refine ends_bind_ok hx (ends_of_ok rfl ⟨[], s, .of_eq rfl, fun later => ?_, hmutex,
      es, h, Nat.le_succ _⟩)
    simp only [resolvedStep, Timer.step, Call.resolve, hadd, Option.map_some, observed, left,
      allocations, List.drop_zero, List.nil_append]
  rcases name with - | name
  · exact hrefused rfl fun _ => rfl
  rcases callback with - | callback
  · exact hrefused rfl fun _ => rfl
  by_cases hinterval : intervalSeconds.NonPos
  · refine hrefused ?_ fun res => ?_
    · rw [timerAdd, if_pos hinterval]
      rfl
    · rw [Timer.timerAdd, if_pos hinterval]
  · obtain ⟨m₁, hlock, hrep₁, href₁⟩ := lock_ok h self
    show Ends (timerAdd M self (some manager) (some name) intervalSeconds (some callback) userData
      clock >>= fun result => pure (Answer.added result)) m _ _
    rw [timerAdd, if_neg hinterval]
    refine Ends.bind (ends_bind_ok hlock (timerAddLocked_ends hrep₁ hfuel name intervalSeconds
      callback userData clock)) ?_
    rintro r m' ⟨used, s', hused, hlength, hadd, hbecomes⟩
    refine ends_of_ok rfl ⟨used, s', hused.congr href₁.symm rfl, fun later => ?_, ?_, hbecomes⟩
    · simp only [resolvedStep, Timer.step, Call.resolve, Timer.timerAdd, if_neg hinterval,
        hadd later, Option.map_some, observed, left, ← hlength, List.drop_left]
    · have hfree := timerAddLocked_mutex (s.lock self) name intervalSeconds callback userData
        (resources (used ++ []) clock)
      rw [hadd] at hfree
      exact hfree

theorem remove_ends (h : Represents frame m.cells manager s es) (hmutex : s.mutex = none)
    (hfuel : es.length < M.listFuel) (self : ThreadId) (name : Option Name) :
    Ends (callOf M (some manager) ⟨self, .remove name⟩) m
      (Served M frame manager s es m ⟨self, .remove name⟩) (fun _ _ => False) := by
  cases name with
  | none =>
      exact ends_of_ok rfl ⟨[], s, .of_eq rfl, fun _ => rfl, hmutex, es, h, Nat.le_succ _⟩
  | some name =>
      obtain ⟨m₁, hlock, hrep₁, href₁⟩ := lock_ok h self
      refine Ends.bind (ends_bind_ok hlock (timerRemoveLocked_ends hrep₁ hfuel name)) ?_
      rintro r m' ⟨href, rfl, es', hrep', hlen⟩
      exact ends_of_ok rfl ⟨[], _, .of_eq (href.trans href₁), fun _ => rfl,
        timerRemoveLocked_mutex _ _, es', hrep', Nat.le_succ_of_le hlen⟩

theorem update_ends (h : Represents frame m.cells manager s es) (hmutex : s.mutex = none)
    (hfuel : es.length < M.listFuel) (self : ThreadId) (clock : Option ClockTime) :
    Ends (callOf M (some manager) ⟨self, .update clock⟩) m
      (Served M frame manager s es m ⟨self, .update clock⟩)
      (Stuck M s ⟨self, .update clock⟩ m) := by
  cases clock with
  | none =>
      exact ends_of_ok rfl ⟨[], s, .of_eq rfl, fun _ => rfl, hmutex, es, h, Nat.le_succ _⟩
  | some now =>
      obtain ⟨m₁, hlock, hrep₁, href₁⟩ := lock_ok h self
      have hhead : (s.lock self).head = es.map Placed.entry := hrep₁.head
      refine Ends.bind (ends_bind_ok hlock (ends_bind_ok (readManager_ok hrep₁.fields) (Ends.bind
        ((updateEntries_ends now.1 [] es hrep₁ hfuel).mono (fun _ _ hQ => hQ) ?_)
        (R := fun fired m' => Served M frame manager s es m ⟨self, .update (some now)⟩
          (.updated fired) m') ?_))) ?_
      · rintro fault m' ⟨hfault, href, hloop⟩
        refine ⟨hfault, .of_eq (href.trans href₁), fun later => ?_⟩
        rw [← hhead] at hloop
        simp only [resolvedStep, Timer.step, Call.resolve, Timer.timerUpdate, hloop, Option.map_none]
      · rintro fired m₂ ⟨href₂, es', invocations, hloop, rfl, hlen, hrep₂⟩
        obtain ⟨m', hunlock, hrep', href'⟩ := unlock_ok hrep₂
        rw [← hhead] at hloop
        refine ends_bind_ok hunlock (ends_of_ok rfl ⟨[], _, .of_eq (href'.trans (href₂.trans href₁)),
          fun later => ?_, ?_, es', hrep', by omega⟩)
        · simp only [resolvedStep, Timer.step, Call.resolve, Timer.timerUpdate, hloop,
            Option.map_some, observed, left, List.nil_append]
        · rfl
      · exact fun fired m' hserved => ends_of_ok rfl hserved

theorem getSize_ends (h : Represents frame m.cells manager s es) (self : ThreadId) :
    Ends (callOf M (some manager) ⟨self, .getSize⟩) m
      (Served M frame manager s es m ⟨self, .getSize⟩) (fun _ _ => False) := by
  obtain ⟨m₁, hlock, hrep₁, href₁⟩ := lock_ok h self
  obtain ⟨m', hunlock, hrep', href'⟩ := unlock_ok hrep₁
  have hrun : timerGetSize self (some manager) m = (.ok s.size, m') := by
    rw [timerGetSize, bind_ok hlock, bind_ok (readManager_ok hrep₁.fields), bind_ok hunlock]
    rfl
  exact ends_bind_ok hrun (ends_of_ok rfl ⟨[], _, .of_eq (href'.trans href₁), fun _ => rfl, rfl,
    es, hrep', Nat.le_succ _⟩)

/-- **One call does to the manager what `Timer.step` does**, with the answers of the allocator
for its resources; or a catch-up loop is still going. -/
theorem callOf_ends (h : Represents frame m.cells manager s es) (hmutex : s.mutex = none)
    (hfuel : es.length < M.listFuel) (req : Request κ υ) :
    Ends (callOf M (some manager) req) m (Served M frame manager s es m req) (Stuck M s req m) := by
  obtain ⟨self, call⟩ := req
  cases call with
  | add name intervalSeconds callback userData clock =>
      exact (add_ends h hmutex hfuel self name intervalSeconds callback userData clock).mono
        (fun _ _ hQ => hQ) fun _ _ hE => hE.elim
  | remove name =>
      exact (remove_ends h hmutex hfuel self name).mono (fun _ _ hQ => hQ) fun _ _ hE => hE.elim
  | update clock => exact update_ends h hmutex hfuel self clock
  | getSize =>
      exact (getSize_ends h self).mono (fun _ _ hQ => hQ) fun _ _ hE => hE.elim

/-! ## Whole programs -/

/-- **`timer_manager_create`.** -/
theorem timerManagerCreate_ends (rc : ℤ) (m : Memory P (Block P κ υ)) :
    Ends (timerManagerCreate M rc) m
      (fun manager m' =>
        (manager = none ∧ m'.cells = m.cells ∧
          (Answered [false] m m' ∨ Answered [true] m m' ∧ rc ≠ 0)) ∨
        (rc = 0 ∧ Answered [true] m m' ∧ ∃ p, manager = some p ∧
          Represents m.cells m'.cells p ⟨[], none, 0⟩ []))
      (fun _ _ => False) := by
  refine ends_bind_malloc _ _ (fun m₁ hcells₁ hused₁ => ?_) fun p m₁ hp hcells₁ hused₁ => ?_
  · exact ends_of_ok rfl (.inl ⟨rfl, hcells₁, .inl hused₁⟩)
  · obtain ⟨howns, hfields, -⟩ := (owns_nil m.cells).given hp hcells₁
    refine ends_bind_ok (modifyManager_ok hfields _) ?_
    refine ends_bind_ok (modifyManager_ok (Function.update_self _ _ _) _) ?_
    rw [Memory.set_set]
    by_cases hrc : rc ≠ 0
    · rw [if_pos hrc]
      refine ends_bind_ok (free_ok (Function.update_self _ _ _)) (ends_of_ok rfl (.inl ?_))
      exact ⟨rfl, (howns.set List.mem_cons_self _).free.eq_of_nil, .inr ⟨hused₁, hrc⟩⟩
    · rw [if_neg hrc]
      refine ends_bind_ok (modifyManager_ok (Function.update_self _ _ _) _) ?_
      rw [Memory.set_set]
      refine ends_of_ok rfl (.inr ⟨not_not.mp hrc, hused₁, p, rfl, rfl, Function.update_self _ _ _,
        trivial, ?_, howns.set List.mem_cons_self _⟩)
      intro x hx
      cases hx

/-- The name of an entry is given back in front of the entry. -/
theorem releases_entry :
    Releases (entries : Layout P (Block P κ υ) (Entry P κ υ)) owned releaseEntry := by
  intro frame m x q rest howns hx
  obtain ⟨p, name, nextRunTime, intervalSeconds, callback, userData⟩ := x
  cases name with
  | none =>
      refine ⟨m, ?_, howns, fun _ _ => rfl, rfl⟩
      rw [releaseEntry, bind_ok (entries.get_ok hx)]
      rfl
  | some t =>
      have howns' : Owns frame m.cells (t :: p :: rest) := howns.perm (List.Perm.swap t p rest)
      obtain ⟨v, hv⟩ := howns.there t (by simp [owned])
      refine ⟨m.erase t, ?_, howns'.free, fun a ha => ?_, rfl⟩
      · rw [releaseEntry, bind_ok (entries.get_ok hx)]
        exact free_ok hv
      · have hne : a ≠ t := by
          rintro rfl
          exact (List.nodup_cons.mp howns'.nodup).1 (List.mem_cons_of_mem _ ha)
        exact Function.update_of_ne hne _ _

/-- **`timer_free`** gives back every block of the manager. -/
theorem timerFree_ends (h : Represents frame m.cells manager s es) (hfuel : es.length < M.listFuel)
    (self : ThreadId) :
    Ends (timerFree M self (some manager)) m
      (fun _ m' => m'.cells = frame ∧ m'.answers = m.answers) (fun _ _ => False) := by
  obtain ⟨m₁, hlock, hrep₁, href₁⟩ := lock_ok h self
  have howns : Owns frame m₁.cells (blocks owned (es.map Placed.node) ++ [manager]) :=
    hrep₁.owns.perm (List.perm_append_singleton manager _).symm
  obtain ⟨m₂, hdispose, howns₂, hsame, href₂⟩ :=
    disposeAll_ok releases_entry howns hrep₁.linked (by rwa [List.length_map])
  have hfields : m₂.cells manager = some (.manager
      ⟨first (es.map Placed.node) none, (s.lock self).mutex, (s.lock self).size⟩) := by
    rw [hsame manager List.mem_cons_self, hrep₁.fields]
  refine ends_bind_ok hlock (ends_bind_ok (readManager_ok hrep₁.fields) (ends_bind_ok hdispose ?_))
  refine ends_bind_ok (modifyManager_ok hfields _) ?_
  refine ends_of_ok (free_ok (Function.update_self _ _ _)) ⟨?_, href₂.trans href₁⟩
  exact ((howns₂.set List.mem_cons_self _).free).eq_of_nil

/-- What a call answers when the manager is NULL. -/
def nullAnswer (req : Request κ υ) : Answer κ υ :=
  match req.call with
  | .add _ _ _ _ _ => .added (.error .invalidParameters)
  | .remove _ => .removed false
  | .update _ => .updated []
  | .getSize => .size (-1)

theorem serve_null (reqs : List (Request κ υ)) (m : Memory P (Block P κ υ)) :
    serve (callOf M none) reqs m = (.ok (reqs.map nullAnswer), m) := by
  apply serve_const
  rintro ⟨self, call⟩
  cases call <;> rfl

/-- **A program with a timer manager uses memory soundly.**  Whatever the allocator answers and
fresh blocks hold, a program that creates a manager, uses it and frees it follows no NULL
pointer, uses no block after it was freed, frees none twice, and returns with the memory as it
was before; and it does what a run of `Timer.step` does, which takes what the allocator
answered, call by call, for the resources of its calls and uses it up.  It does not return only
where that run is stuck in a catch-up loop.  Without a manager every call fails. -/
theorem timer_program_keeps_memory (M : Machine P κ υ) (rc : ℤ) (reqs : List (Request κ υ))
    (self : ThreadId) (hfuel : reqs.length < M.listFuel) (m : Memory P (Block P κ υ)) :
    Ends (program M rc reqs self) m
      (fun answers m' => m'.cells = m.cells ∧
        (((Answered [false] m m' ∨ Answered [true] m m' ∧ rc ≠ 0) ∧
            answers = reqs.map nullAnswer) ∨
          (rc = 0 ∧ ∃ used s, Answered (true :: used) m m' ∧
            Runs.run (resolvedStep M.fuel) (⟨[], none, 0⟩, used) reqs = some ((s, []), answers))))
      (fun fault m' => fault = .outOfFuel ∧ rc = 0 ∧ ∃ used, Answered (true :: used) m m' ∧
        Runs.run (resolvedStep M.fuel) (⟨[], none, 0⟩, used) reqs = none) := by
  refine Ends.bind ((timerManagerCreate_ends rc m).mono (fun _ _ hQ => hQ)
    fun _ _ hE => hE.elim) ?_
  rintro manager m₁ (⟨rfl, hcells₁, hcause⟩ | ⟨hrc, hused₁, p, rfl, hrep₁⟩)
  · refine ends_bind_ok (serve_null reqs m₁) (ends_bind_ok rfl (ends_of_ok rfl ?_))
    exact ⟨hcells₁, .inl ⟨hcause, rfl⟩⟩
  · let Rep : ℕ → Unit → TimerManager κ υ → Memory P (Block P κ υ) → Prop := fun n _ s m' =>
      s.mutex = none ∧ ∃ es, Represents m.cells m'.cells p s es ∧ es.length + n < M.listFuel
    have hserve := serveWith_ends (fun (_ : Unit) req => do
        let answer ← callOf M (some p) req
        pure ((), answer)) (resolvedStep M.fuel) (fun _ => 1) Rep (E := fun _ => False)
      (S := (· = .outOfFuel)) ?_ reqs (t := ()) ⟨rfl, [], hrep₁, by simpa using hfuel⟩
    · refine Ends.bind (Ends.bind (hserve.mono (fun _ _ hQ => hQ) ?_)
        (R := fun answers m₂ => ∃ used s, Answered used m₁ m₂ ∧
          (∀ later, Runs.run (resolvedStep M.fuel) (⟨[], none, 0⟩, used ++ later) reqs =
            some ((s, later), answers)) ∧ Rep 0 () s m₂) fun r m₂ hQ => ends_of_ok rfl hQ) ?_
      · rintro fault m' ⟨used, hused, ⟨hfalse, -⟩ | ⟨hfault, hrun⟩⟩
        · exact hfalse.elim
        · have hnone := hrun []
          rw [List.append_nil] at hnone
          exact ⟨hfault, hrc, used, hused₁.trans hused, hnone⟩
      · rintro answers m₂ ⟨used, s, hused, hrun, -, es, hrep₂, hlen⟩
        refine Ends.bind ((timerFree_ends (M := M) hrep₂ (by omega) self).mono (fun _ _ hQ => hQ)
          fun _ _ hE => hE.elim) ?_
        rintro - m₃ ⟨hcells₃, href₃⟩
        have hsome := hrun []
        rw [List.append_nil] at hsome
        exact ends_of_ok rfl ⟨hcells₃, .inr ⟨hrc, used, s,
          (hused₁.trans hused).congr rfl href₃, hsome⟩⟩
    · rintro n - s m' req ⟨hmutex, es, hrep, hlen⟩
      refine Ends.bind ((callOf_ends hrep hmutex (by omega) req).mono (fun _ _ hQ => hQ) ?_) ?_
      · rintro fault m₂ ⟨hfault, hused, hstuck⟩
        exact ⟨[], hused, .inr ⟨hfault, hstuck⟩⟩
      · rintro answer m₂ ⟨used, s', hused, hstep, hmutex', es', hrep', hlen'⟩
        exact ends_of_ok rfl ⟨used, s', hused, hstep, hmutex', es', hrep', by omega⟩

/-- The copy of the name is refused at first.  The timer is added then, refused as it is there,
and the manager is freed with an entry in it. -/
theorem timer_program_keeps_memory_refused_name :
    ∃ m', program (P := ℕ) (κ := ℕ) (υ := ℕ)
        ⟨Allocator.refusing 2, ⟨some 3, none, 9⟩, ⟨none, ⟨0, 0⟩, .finite 0, none, 0⟩, some 4, 5, 1⟩ 0
        [⟨1, .add (some [97]) (.finite 1) (some 0) 0 (some ⟨⟨6, 0⟩, by decide⟩)⟩,
          ⟨1, .add (some [97]) (.finite 1) (some 0) 0 (some ⟨⟨7, 0⟩, by decide⟩)⟩,
          ⟨2, .add (some [97]) (.finite 1) (some 0) 0 none⟩, ⟨1, .getSize⟩] 1
        ⟨fun _ => none, []⟩ =
        (.ok [.added (.error .nameAllocation), .added (.ok ()), .added (.error .nameExists),
          .size 1], m') ∧
      m'.cells = (fun _ => none) ∧ m'.answers = [true, true, false, true, true] := by
  have h := timer_program_keeps_memory (P := ℕ) (κ := ℕ) (υ := ℕ)
    ⟨Allocator.refusing 2, ⟨some 3, none, 9⟩, ⟨none, ⟨0, 0⟩, .finite 0, none, 0⟩, some 4, 5, 1⟩ 0
    [⟨1, .add (some [97]) (.finite 1) (some 0) 0 (some ⟨⟨6, 0⟩, by decide⟩)⟩,
      ⟨1, .add (some [97]) (.finite 1) (some 0) 0 (some ⟨⟨7, 0⟩, by decide⟩)⟩,
      ⟨2, .add (some [97]) (.finite 1) (some 0) 0 none⟩, ⟨1, .getSize⟩] 1 (by decide)
    ⟨fun _ => none, []⟩
  exact ⟨_, rfl, And.left h, rfl⟩

end TimerMemory
