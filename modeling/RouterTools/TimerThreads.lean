/-
# Threads that share a timer manager

The system of `TimerLock.lean` says how the threads take turns; here it is watched
from outside: which calls were made, which have returned and with which answer, and
which callbacks the traversal under way has invoked.  Whatever the scheduler does,
the calls that have returned are one sequence of calls on the manager, in the order
in which they gave the mutex back: `timer_calls_serialise`.

While the mutex is held the manager is the one before the call, with the part of the
chain advanced that the traversal has behind it.  `Progress` says so for every place
a thread can be at; each step of the holder is one step of `updateEntries`.
-/
import RouterTools.TimerLock
import RouterTools.TimerRefinement

namespace Timer

variable {κ υ : Type*}

/-! ## What is observed -/

/-- What a critical section other than that of `timer_update` answers. -/
def criticalAnswer (manager : TimerManager κ υ) : Call κ υ → Answer κ υ
  | .add (some name) intervalSeconds (some callback) userData res =>
      .added (timerAddLocked manager name intervalSeconds callback userData res).2
  | .add .. => .added (.error .invalidParameters)
  | .remove (some name) => .removed (timerRemoveLocked manager name).2
  | .remove none => .removed false
  | .update _ => .updated []
  | .getSize => .size manager.size

/-- The system with what its threads have shown so far. -/
structure Observed (κ υ : Type*) where
  system : System κ υ
  /-- The calls made, in the order they were made in. -/
  invoked : List (Request κ υ)
  /-- The calls that have returned, in the order of the unlocks, with their answers. -/
  completed : List (Request κ υ × Answer κ υ)
  /-- The callbacks the traversal under way has invoked. -/
  fired : List (Invocation κ υ)

/-- A created manager, and nothing observed. -/
def Observed.init : Observed κ υ := ⟨System.init, [], [], []⟩

/-- One step of one thread, and what it shows. -/
inductive Observe (behaviour : κ → υ → Set (List (Call κ υ))) :
    Observed κ υ → Observed κ υ → Prop
  | invoke {o : Observed κ υ} {t call} (hidle : o.system.stack t = [])
      (hlocks : call.locks = true) :
      Observe behaviour o
        { o with
          system := o.system.set o.system.manager t [.locking call]
          invoked := o.invoked ++ [⟨t, call⟩] }
  | lock {o : Observed κ υ} {t call rest} (h : o.system.stack t = .locking call :: rest)
      (hfree : o.system.manager.mutex = none) :
      Observe behaviour o
        { o with
          system := o.system.set (o.system.manager.lock t) t (call.enter :: rest)
          fired := [] }
  | critical {o : Observed κ υ} {t call rest} (h : o.system.stack t = .critical call :: rest) :
      Observe behaviour o
        { o with
          system := o.system.set (criticalSection o.system.manager call) t rest
          completed := o.completed ++ [(⟨t, call⟩, criticalAnswer o.system.manager call)] }
  | skip {o : Observed κ υ} {t now i rest e}
      (h : o.system.stack t = .traversing now i :: rest)
      (he : o.system.manager.head[i]? = some e) (hdue : timespecCompare now.1 e.nextRunTime < 0) :
      Observe behaviour o
        { o with system := o.system.set o.system.manager t (.traversing now (i + 1) :: rest) }
  | fire {o : Observed κ υ} {t now i rest e callback program}
      (h : o.system.stack t = .traversing now i :: rest)
      (he : o.system.manager.head[i]? = some e) (hdue : timespecCompare now.1 e.nextRunTime ≥ 0)
      (hcb : e.callback = some callback) (hprogram : program ∈ behaviour callback e.userData) :
      Observe behaviour o
        { o with
          system := o.system.set o.system.manager t (.callback now i program :: rest)
          fired := o.fired ++ [⟨e.name, callback, e.userData, e.nextRunTime⟩] }
  | fireNull {o : Observed κ υ} {t now i rest e}
      (h : o.system.stack t = .traversing now i :: rest)
      (he : o.system.manager.head[i]? = some e) (hdue : timespecCompare now.1 e.nextRunTime ≥ 0)
      (hcb : e.callback = none) :
      Observe behaviour o
        { o with system := o.system.set o.system.manager t (.callback now i [] :: rest) }
  | refused {o : Observed κ υ} {t now i call program rest}
      (h : o.system.stack t = .callback now i (call :: program) :: rest)
      (hlocks : call.locks = false) :
      Observe behaviour o
        { o with system := o.system.set o.system.manager t (.callback now i program :: rest) }
  | reenter {o : Observed κ υ} {t now i call program rest}
      (h : o.system.stack t = .callback now i (call :: program) :: rest)
      (hlocks : call.locks = true) :
      Observe behaviour o
        { o with
          system := o.system.set o.system.manager t
            (.locking call :: .callback now i program :: rest) }
  | advance {o : Observed κ υ} {t now i rest e fuel next}
      (h : o.system.stack t = .callback now i [] :: rest)
      (he : o.system.manager.head[i]? = some e)
      (hloop : catchUp fuel now.1 e.intervalSeconds e.nextRunTime = some next) :
      Observe behaviour o
        { o with
          system := o.system.set
            { o.system.manager with
              head := o.system.manager.head.set i { e with nextRunTime := next } }
            t (.traversing now (i + 1) :: rest) }
  | finish {o : Observed κ υ} {t now i rest} (h : o.system.stack t = .traversing now i :: rest)
      (hend : o.system.manager.head[i]? = none) :
      Observe behaviour o
        { o with
          system := o.system.set o.system.manager.unlock t rest
          completed := o.completed ++ [(⟨t, .update (some now)⟩, .updated o.fired)] }

/-- What can be observed from the start. -/
def Observed.Reachable (behaviour : κ → υ → Set (List (Call κ υ))) : Observed κ υ → Prop :=
  Relation.ReflTransGen (Observe behaviour) Observed.init

variable {behaviour : κ → υ → Set (List (Call κ υ))}

/-- Watching changes nothing. -/
theorem Observe.step {o o' : Observed κ υ} (h : Observe behaviour o o') :
    Step behaviour o.system o'.system := by
  cases h with
  | invoke hidle hlocks => exact .invoke hidle hlocks
  | lock h hfree => exact .lock h hfree
  | critical h => exact .critical h
  | skip h he hdue => exact .skip h he hdue
  | fire h he hdue hcb hprogram => exact .fire h he hdue hcb hprogram
  | fireNull h he hdue hcb => exact .fireNull h he hdue hcb
  | refused h hlocks => exact .refused h hlocks
  | reenter h hlocks => exact .reenter h hlocks
  | advance h he hloop => exact .advance h he hloop
  | finish h hend => exact .finish h hend

/-- Every step can be watched. -/
theorem Step.observe {s s' : System κ υ} (h : Step behaviour s s') {o : Observed κ υ}
    (ho : o.system = s) : ∃ o', Observe behaviour o o' ∧ o'.system = s' := by
  subst ho
  cases h with
  | invoke hidle hlocks => exact ⟨_, .invoke hidle hlocks, rfl⟩
  | lock h hfree => exact ⟨_, .lock h hfree, rfl⟩
  | critical h => exact ⟨_, .critical h, rfl⟩
  | skip h he hdue => exact ⟨_, .skip h he hdue, rfl⟩
  | fire h he hdue hcb hprogram => exact ⟨_, .fire h he hdue hcb hprogram, rfl⟩
  | fireNull h he hdue hcb => exact ⟨_, .fireNull h he hdue hcb, rfl⟩
  | refused h hlocks => exact ⟨_, .refused h hlocks, rfl⟩
  | reenter h hlocks => exact ⟨_, .reenter h hlocks, rfl⟩
  | advance h he hloop => exact ⟨_, .advance h he hloop, rfl⟩
  | finish h hend => exact ⟨_, .finish h hend, rfl⟩

theorem Observed.Reachable.system {o : Observed κ υ} (h : o.Reachable behaviour) :
    System.Reachable behaviour o.system := by
  induction h with
  | refl => exact .refl
  | tail _ hstep ih => exact .tail ih hstep.step

/-- Every reachable state is the state of something observed. -/
theorem System.Reachable.observed {s : System κ υ} (h : System.Reachable behaviour s) :
    ∃ o : Observed κ υ, o.Reachable behaviour ∧ o.system = s := by
  induction h with
  | refl => exact ⟨Observed.init, .refl, rfl⟩
  | tail _ hstep ih =>
      obtain ⟨o, ho, hs⟩ := ih
      obtain ⟨o', hobs, hs'⟩ := hstep.observe hs
      exact ⟨o', .tail ho hobs, hs'⟩

/-! ## Inside a critical section -/

theorem updateEntries_length {fuel : ℕ} {now : Timespec} {l l' : List (TimerEntry κ υ)}
    {fired : List (Invocation κ υ)} (h : updateEntries fuel now l = some (l', fired)) :
    l'.length = l.length :=
  (updateEntries_spec h).1.length_eq.symm

/-- One more entry. -/
theorem updateEntries_concat {fuel : ℕ} {now : Timespec} {e e' : TimerEntry κ υ}
    {fired₁ : List (Invocation κ υ)} (he : updateEntry fuel now e = some (e', fired₁)) :
    ∀ {l l' : List (TimerEntry κ υ)} {fired : List (Invocation κ υ)},
      updateEntries fuel now l = some (l', fired) →
      updateEntries fuel now (l ++ [e]) = some (l' ++ [e'], fired ++ fired₁) := by
  intro l
  induction l with
  | nil =>
      intro l' fired h
      cases h
      exact updateEntries_cons_eq_some.mpr ⟨e', fired₁, [], [], he, rfl, rfl, by simp⟩
  | cons a l ih =>
      intro l' fired h
      obtain ⟨a', firedA, next, firedL, hentry, hrest, rfl, rfl⟩ := updateEntries_cons_eq_some.mp h
      exact updateEntries_cons_eq_some.mpr
        ⟨a', firedA, next ++ [e'], firedL ++ fired₁, hentry, ih hrest, rfl, by simp⟩

/-- The traversal has the first `i` entries of the chain of `m` behind it. -/
def Traversed (m : TimerManager κ υ) (now : ClockTime) (i : ℕ) (fired : List (Invocation κ υ))
    (manager : TimerManager κ υ) (t : ThreadId) : Prop :=
  i ≤ m.head.length ∧ ∃ fuel front, updateEntries fuel now.1 (m.head.take i) = some (front, fired) ∧
    manager = { m.lock t with head := front ++ m.head.drop i }

/-- The entry at position `i` is due and its callback was invoked. -/
def Called (m : TimerManager κ υ) (now : ClockTime) (i : ℕ) (fired : List (Invocation κ υ))
    (manager : TimerManager κ υ) (t : ThreadId) : Prop :=
  ∃ e fired', m.head[i]? = some e ∧ timespecCompare now.1 e.nextRunTime ≥ 0 ∧
    fired = fired' ++ invokeCallback e ∧ Traversed m now i fired' manager t

/-- How far the holder `t` of the mutex, with the given frames, has brought the manager that
was `m` when it took the mutex. -/
def Progress (m : TimerManager κ υ) (fired : List (Invocation κ υ)) (manager : TimerManager κ υ)
    (t : ThreadId) : List (Frame κ υ) → Prop
  | [.critical call] =>
      call.locks = true ∧ (∀ clock, call ≠ .update clock) ∧ manager = m.lock t
  | [.traversing now i] => Traversed m now i fired manager t
  | [.callback now i _] => Called m now i fired manager t
  | [.locking _, .callback now i _] => Called m now i fired manager t
  | _ => False

/-- The manager that was `m` after the calls that have returned. -/
def Current (m : TimerManager κ υ) (o : Observed κ υ) : Prop :=
  match o.system.manager.mutex with
  | none => o.system.manager = m
  | some t => Progress m o.fired o.system.manager t (o.system.stack t)

/-- The calls that have returned are a run of the sequential manager, to `m`. -/
def Sequential (o : Observed κ υ) (m : TimerManager κ υ) : Prop :=
  ∃ fuel, Runs.run (step fuel) ⟨[], none, 0⟩ (o.completed.map Prod.fst) =
    some (m, o.completed.map Prod.snd)

/-- A created manager. -/
theorem create_empty : timerManagerCreate true 0 = some (⟨[], none, 0⟩ : TimerManager κ υ) := rfl

theorem Sequential.inv {o : Observed κ υ} {m : TimerManager κ υ} (h : Sequential o m) : m.Inv := by
  obtain ⟨fuel, hrun⟩ := h
  exact Runs.run_invariant step_inv _ (inv_create create_empty) hrun

/-- One more call has returned. -/
theorem Sequential.concat {o o' : Observed κ υ} {m m' : TimerManager κ υ} {req : Request κ υ}
    {answer : Answer κ υ} {fuel : ℕ} (h : Sequential o m)
    (ho : o'.completed = o.completed ++ [(req, answer)])
    (hstep : step fuel m req = some (m', answer)) : Sequential o' m' := by
  obtain ⟨fuel₀, hrun⟩ := h
  refine ⟨max fuel₀ fuel, ?_⟩
  have hrun' := Runs.run_mono (step_mono (le_max_left fuel₀ fuel)) _ hrun
  have hstep' := step_mono (le_max_right fuel₀ fuel) m req _ hstep
  rw [ho, List.map_append, List.map_append]
  exact Runs.run_append_eq_some.mpr ⟨m, _, [answer], hrun',
    Runs.run_cons_eq_some.mpr ⟨m', answer, [], hstep', rfl, rfl⟩, rfl⟩

/-- A critical section that is run with the mutex locked is the call. -/
theorem step_criticalSection {call : Call κ υ} (h : call.locks = true)
    (hcall : ∀ clock, call ≠ .update clock) (fuel : ℕ) (self : ThreadId) (m : TimerManager κ υ) :
    step fuel m ⟨self, call⟩ =
      some (criticalSection (m.lock self) call, criticalAnswer (m.lock self) call) := by
  rcases call with ⟨_ | name, s, _ | callback, userData, res⟩ | ⟨_ | name⟩ | clock | _
  all_goals try cases h
  · have hs : ¬ s.NonPos := by simpa [Call.locks] using h
    simp only [step, timerAdd, if_neg hs, criticalSection, criticalAnswer]
  · rfl
  · exact absurd rfl (hcall clock)
  · rfl

section Traversal

variable {m manager : TimerManager κ υ} {now : ClockTime} {i : ℕ} {fired : List (Invocation κ υ)}
  {t : ThreadId} {e : TimerEntry κ υ}

/-- The traversal starts with nothing behind it. -/
theorem traversed_start (m : TimerManager κ υ) (now : ClockTime) (t : ThreadId) :
    Traversed m now 0 [] (m.lock t) t :=
  ⟨Nat.zero_le _, 0, [], rfl, rfl⟩

/-- What is ahead of the traversal is as it was. -/
theorem Traversed.getElem? (h : Traversed m now i fired manager t) :
    manager.head[i]? = m.head[i]? := by
  obtain ⟨hle, fuel, front, hfront, rfl⟩ := h
  have hlen : front.length = i := by
    rw [updateEntries_length hfront, List.length_take, min_eq_left hle]
  show (front ++ m.head.drop i)[i]? = _
  rw [List.getElem?_append_right (by omega), hlen, Nat.sub_self, List.getElem?_drop, Nat.add_zero]

/-- **One entry**: the traversal does to it what `updateEntry` does. -/
theorem Traversed.next (h : Traversed m now i fired manager t) (he : m.head[i]? = some e)
    {fuel : ℕ} {e' : TimerEntry κ υ} {fired' : List (Invocation κ υ)}
    (hentry : updateEntry fuel now.1 e = some (e', fired')) :
    Traversed m now (i + 1) (fired ++ fired') { manager with head := manager.head.set i e' } t := by
  obtain ⟨hle, fuel₀, front, hfront, rfl⟩ := h
  obtain ⟨hlt, hget⟩ := List.getElem?_eq_some_iff.mp he
  have hlen : front.length = i := by
    rw [updateEntries_length hfront, List.length_take, min_eq_left hle]
  have htake : m.head.take (i + 1) = m.head.take i ++ [e] := by
    rw [List.take_add_one, he]
    rfl
  have hdrop : m.head.drop i = e :: m.head.drop (i + 1) := by
    rw [← hget]
    exact List.drop_eq_getElem_cons hlt
  refine ⟨hlt, max fuel₀ fuel, front ++ [e'], ?_, ?_⟩
  · rw [htake]
    exact updateEntries_concat (updateEntry_mono (le_max_right _ _) hentry)
      (updateEntries_mono (le_max_left _ _) hfront)
  · -- the entry is replaced in place
    have hset : (front ++ m.head.drop i).set i e' = (front ++ [e']) ++ m.head.drop (i + 1) := by
      rw [hdrop, List.set_append_right i e' (by omega), hlen, Nat.sub_self, List.set_cons_zero,
        List.append_assoc, List.singleton_append]
    show ({ m.lock t with head := (front ++ m.head.drop i).set i e' } : TimerManager κ υ) = _
    rw [hset]

/-- An entry that is not due stays as it is. -/
theorem Traversed.skip (h : Traversed m now i fired manager t) (he : m.head[i]? = some e)
    (hdue : timespecCompare now.1 e.nextRunTime < 0) :
    Traversed m now (i + 1) fired manager t := by
  have hentry : updateEntry 0 now.1 e = some (e, []) := by
    rw [updateEntry, if_neg (by omega)]
  have hnext := h.next he hentry
  have hsame : manager.head.set i e = manager.head := by
    have hget := h.getElem?
    rw [he] at hget
    obtain ⟨hlt, hget⟩ := List.getElem?_eq_some_iff.mp hget
    rw [← hget]
    exact List.set_getElem_self hlt
  rw [hsame, List.append_nil] at hnext
  exact hnext

/-- After the callback the catch-up loop finishes the entry. -/
theorem Called.advance (h : Called m now i fired manager t) (he : manager.head[i]? = some e)
    {fuel : ℕ} {next : Timespec}
    (hloop : catchUp fuel now.1 e.intervalSeconds e.nextRunTime = some next) :
    Traversed m now (i + 1) fired
      { manager with head := manager.head.set i { e with nextRunTime := next } } t := by
  obtain ⟨e₀, fired', he₀, hdue, rfl, htrav⟩ := h
  obtain rfl : e₀ = e := by
    rw [htrav.getElem?, he₀] at he
    exact Option.some.inj he
  have hentry : updateEntry fuel now.1 e₀ =
      some ({ e₀ with nextRunTime := next }, invokeCallback e₀) := by
    rw [updateEntry, if_pos hdue, hloop]
  exact htrav.next he₀ hentry

/-- **The traversal at its end** is `timer_update`. -/
theorem Traversed.finish (h : Traversed m now i fired manager t)
    (hend : manager.head[i]? = none) :
    ∃ fuel, step fuel m ⟨t, .update (some now)⟩ = some (manager.unlock, .updated fired) := by
  rw [h.getElem?, List.getElem?_eq_none_iff] at hend
  obtain ⟨hle, fuel, front, hfront, rfl⟩ := h
  have hi : i = m.head.length := by omega
  rw [hi, List.take_length] at hfront
  refine ⟨fuel, ?_⟩
  have hlock : (m.lock t).head = m.head := rfl
  simp only [step, timerUpdate, hlock, hfront]
  rw [hi, List.drop_length, List.append_nil]

end Traversal

/-! ## Serialisation -/

/-- Every thread in front of `pthread_mutex_lock` is in a call that locks. -/
def Awaits (s : System κ υ) : Prop :=
  ∀ t call rest, s.stack t = .locking call :: rest → call.locks = true

/-- The calls that have returned are a sequence of calls, and the manager is what it leaves,
but for the critical section under way. -/
def Serial (o : Observed κ υ) : Prop :=
  (∃ m, Sequential o m ∧ Current m o) ∧ Awaits o.system

theorem Current.of_free {m : TimerManager κ υ} {o : Observed κ υ} (h : Current m o)
    (hfree : o.system.manager.mutex = none) : o.system.manager = m := by
  unfold Current at h
  rw [hfree] at h
  exact h

theorem Current.of_held {m : TimerManager κ υ} {o : Observed κ υ} (h : Current m o)
    {t : ThreadId} {frames : List (Frame κ υ)} (hheld : o.system.manager.mutex = some t)
    (hstack : o.system.stack t = frames) : Progress m o.fired o.system.manager t frames := by
  unfold Current at h
  rw [hheld] at h
  rw [← hstack]
  exact h

/-- The state after a step of the holder. -/
theorem current_set {m manager : TimerManager κ υ} {o : Observed κ υ} {s : System κ υ}
    {t : ThreadId} {frames : List (Frame κ υ)} (ho : o.system = s.set manager t frames)
    (hheld : manager.mutex = some t) (h : Progress m o.fired manager t frames) : Current m o := by
  unfold Current
  rw [ho, System.set_manager, hheld]
  show Progress m o.fired manager t ((s.set manager t frames).stack t)
  rw [System.set_stack_self]
  exact h

theorem Awaits.set {s : System κ υ} (h : Awaits s) {manager : TimerManager κ υ} {t : ThreadId}
    {stack : List (Frame κ υ)}
    (hstack : ∀ call rest, stack = .locking call :: rest → call.locks = true) :
    Awaits (s.set manager t stack) := by
  intro t' call rest heq
  by_cases ht : t' = t
  · subst ht
    rw [System.set_stack_self] at heq
    exact hstack call rest heq
  · rw [System.set_stack_of_ne s manager ht] at heq
    exact h t' call rest heq

/-- **One step keeps the calls in sequence.** -/
theorem Observe.serial {o o' : Observed κ υ} (hlock : LockInv o.system) (h : Serial o)
    (hstep : Observe behaviour o o') : Serial o' := by
  obtain ⟨⟨m, hseq, hcur⟩, hawaits⟩ := h
  cases hstep with
  | @invoke t call hidle hlocks =>
      refine ⟨⟨m, hseq, ?_⟩, hawaits.set (by rintro _ _ ⟨⟩; exact hlocks)⟩
      cases hmutex : o.system.manager.mutex with
      | none =>
          unfold Current
          dsimp only
          rw [System.set_manager, hmutex]
          exact hcur.of_free hmutex
      | some holder =>
          -- the holder is not idle, so that it is another thread
          have hprogress := hcur.of_held hmutex rfl
          have hne : holder ≠ t := by
            rintro rfl
            rw [hidle] at hprogress
            exact hprogress
          unfold Current
          dsimp only
          rw [System.set_manager, hmutex]
          dsimp only
          rw [System.set_stack_of_ne _ _ hne]
          exact hprogress
  | @lock t call rest hstack hfree =>
      obtain rfl := hlock.waiting hstack hfree
      have hlocks := hawaits t call [] hstack
      have hm := hcur.of_free hfree
      refine ⟨⟨m, hseq, ?_⟩, hawaits.set ?_⟩
      · refine current_set rfl rfl ?_
        dsimp only
        rw [hm]
        rcases call with ⟨name, s, callback, userData, res⟩ | name | ⟨_ | now⟩ | _
        · exact ⟨hlocks, by simp, rfl⟩
        · exact ⟨hlocks, by simp, rfl⟩
        · cases hlocks
        · exact traversed_start m now t
        · exact ⟨hlocks, by simp, rfl⟩
      · intro call' rest' heq
        unfold Call.enter at heq
        split at heq <;> cases heq
  | @critical t call rest hstack =>
      obtain ⟨hmutex, rfl⟩ := hlock.inside hstack (by simp)
      obtain ⟨hlocks, hcall, hm⟩ := hcur.of_held hmutex hstack
      refine ⟨⟨criticalSection (m.lock t) call, ?_, ?_⟩, hawaits.set (by simp)⟩
      · exact hseq.concat (by rw [hm]) (step_criticalSection hlocks hcall 0 t m)
      · unfold Current
        dsimp only
        rw [System.set_manager, criticalSection_mutex, hm]
  | @skip t now i rest e hstack he hdue =>
      obtain ⟨hmutex, rfl⟩ := hlock.inside hstack (by simp)
      have htrav : Traversed m now i o.fired o.system.manager t := hcur.of_held hmutex hstack
      refine ⟨⟨m, hseq, current_set rfl hmutex ?_⟩, hawaits.set (by simp)⟩
      exact htrav.skip (by rw [← htrav.getElem?]; exact he) hdue
  | @fire t now i rest e callback program hstack he hdue hcb hprogram =>
      obtain ⟨hmutex, rfl⟩ := hlock.inside hstack (by simp)
      have htrav : Traversed m now i o.fired o.system.manager t := hcur.of_held hmutex hstack
      refine ⟨⟨m, hseq, current_set rfl hmutex ?_⟩, hawaits.set (by simp)⟩
      refine ⟨e, o.fired, by rw [← htrav.getElem?]; exact he, hdue, ?_, htrav⟩
      rw [invokeCallback, hcb]
  | @fireNull t now i rest e hstack he hdue hcb =>
      obtain ⟨hmutex, rfl⟩ := hlock.inside hstack (by simp)
      have htrav : Traversed m now i o.fired o.system.manager t := hcur.of_held hmutex hstack
      refine ⟨⟨m, hseq, current_set rfl hmutex ?_⟩, hawaits.set (by simp)⟩
      refine ⟨e, o.fired, by rw [← htrav.getElem?]; exact he, hdue, ?_, htrav⟩
      rw [invokeCallback, hcb, List.append_nil]
  | @refused t now i call program rest hstack hlocks =>
      obtain ⟨hmutex, rfl⟩ := hlock.inside hstack (by simp)
      have hcalled : Called m now i o.fired o.system.manager t := hcur.of_held hmutex hstack
      exact ⟨⟨m, hseq, current_set rfl hmutex hcalled⟩, hawaits.set (by simp)⟩
  | @reenter t now i call program rest hstack hlocks =>
      obtain ⟨hmutex, rfl⟩ := hlock.inside hstack (by simp)
      have hcalled : Called m now i o.fired o.system.manager t := hcur.of_held hmutex hstack
      refine ⟨⟨m, hseq, current_set rfl hmutex hcalled⟩, hawaits.set ?_⟩
      rintro _ _ ⟨⟩
      exact hlocks
  | @advance t now i rest e fuel next hstack he hloop =>
      obtain ⟨hmutex, rfl⟩ := hlock.inside hstack (by simp)
      have hcalled : Called m now i o.fired o.system.manager t := hcur.of_held hmutex hstack
      exact ⟨⟨m, hseq, current_set rfl hmutex (hcalled.advance he hloop)⟩, hawaits.set (by simp)⟩
  | @finish t now i rest hstack hend =>
      obtain ⟨hmutex, rfl⟩ := hlock.inside hstack (by simp)
      have htrav : Traversed m now i o.fired o.system.manager t := hcur.of_held hmutex hstack
      obtain ⟨fuel, hcall⟩ := htrav.finish hend
      exact ⟨⟨o.system.manager.unlock, hseq.concat rfl hcall, rfl⟩, hawaits.set (by simp)⟩

/-- What is observed is a sequence of calls, at every moment. -/
theorem Observed.Reachable.serial {o : Observed κ υ} (h : o.Reachable behaviour) : Serial o := by
  induction h with
  | refl =>
      refine ⟨⟨⟨[], none, 0⟩, ⟨0, rfl⟩, rfl⟩, ?_⟩
      intro t call rest heq
      cases heq
  | tail hreach hstep ih =>
      exact hstep.serial (Observed.Reachable.system hreach).lockInv ih

/-- **The calls of any number of threads are one sequence of calls.**  Whatever the scheduler
and the callbacks do, the calls that have returned, taken in the order in which they gave
the mutex back, are a run of the sequential manager with the same answers, and, if they are
in range there, a run of the map of the names; and while nobody holds the mutex the manager
is the one that run ends with. -/
theorem timer_calls_serialise (behaviour : κ → υ → Set (List (Call κ υ))) {o : Observed κ υ}
    (h : o.Reachable behaviour) :
    ∃ fuel m, Runs.run (step fuel) ⟨[], none, 0⟩ (o.completed.map Prod.fst) =
        some (m, o.completed.map Prod.snd) ∧
      (Runs.Along (step fuel) InRange ⟨[], none, 0⟩ (o.completed.map Prod.fst) →
        Runs.run (fun a (req : Request κ υ) => some (mapStep a req.call)) (fun _ => none)
          (o.completed.map Prod.fst) =
          some (m.toMap, (o.completed.map Prod.snd).map Answer.abstract)) ∧
      (o.system.manager.mutex = none → o.system.manager = m) := by
  obtain ⟨⟨m, ⟨fuel, hrun⟩, hcur⟩, -⟩ := h.serial
  exact ⟨fuel, m, hrun, fun hrange => (run_simulates create_empty hrange hrun).2, hcur.of_free⟩

/-- The call that adds the one-shot timer. -/
def addOneShot : Call Unit Name :=
  .add (some [97]) (.finite 1) (some ()) [97] ⟨true, true, some ⟨⟨0, 0⟩, by decide⟩⟩

/-- Thread 0 is adding a timer, and thread 1 waits to ask for the size. -/
def twoThreadsWaiting : Observed Unit Name where
  system := (System.init.set (TimerManager.lock ⟨[], none, 0⟩ 0) 0 [.critical addOneShot]).set
    (TimerManager.lock ⟨[], none, 0⟩ 0) 1 [.locking .getSize]
  invoked := [⟨0, addOneShot⟩, ⟨1, .getSize⟩]
  completed := []
  fired := []

theorem twoThreadsWaiting_reachable : twoThreadsWaiting.Reachable removeSelf := by
  let s₁ : System Unit Name := System.init.set ⟨[], none, 0⟩ 0 [.locking addOneShot]
  let s₂ := s₁.set (s₁.manager.lock 0) 0 [.critical addOneShot]
  have h₁ : Observe removeSelf Observed.init ⟨s₁, [⟨0, addOneShot⟩], [], []⟩ :=
    .invoke rfl (by decide +kernel)
  have hwaits : s₁.stack 0 = [.locking addOneShot] := rfl
  have h₂ : Observe removeSelf ⟨s₁, [⟨0, addOneShot⟩], [], []⟩ ⟨s₂, [⟨0, addOneShot⟩], [], []⟩ :=
    @Observe.lock _ _ removeSelf ⟨s₁, [⟨0, addOneShot⟩], [], []⟩ 0 addOneShot [] hwaits rfl
  have h₃ : Observe removeSelf ⟨s₂, [⟨0, addOneShot⟩], [], []⟩
      ⟨s₂.set s₂.manager 1 [.locking .getSize], [⟨0, addOneShot⟩, ⟨1, .getSize⟩], [], []⟩ :=
    .invoke rfl rfl
  have heq : s₂.set s₂.manager 1 [.locking .getSize] = twoThreadsWaiting.system := by
    simp only [s₂, s₁, twoThreadsWaiting, System.set, Function.update_idem]
  rw [heq] at h₃
  exact .tail (.tail (.tail .refl h₁) h₂) h₃

/-- Thread 1 gets the mutex after thread 0. -/
theorem twoThreads_reachable :
    ∃ o : Observed Unit Name, o.Reachable removeSelf ∧
      o.completed = [(⟨0, addOneShot⟩, .added (.ok ())), (⟨1, .getSize⟩, .size 1)] := by
  let reqs : List (Request Unit Name) := [⟨0, addOneShot⟩, ⟨1, .getSize⟩]
  let done : Request Unit Name × Answer Unit Name := (⟨0, addOneShot⟩, .added (.ok ()))
  let s₃ := twoThreadsWaiting.system
  let s₄ := s₃.set (criticalSection s₃.manager addOneShot) 0 []
  let s₅ := s₄.set (s₄.manager.lock 1) 1 [.critical .getSize]
  let s₆ := s₅.set (criticalSection s₅.manager .getSize) 1 []
  have hstack : s₃.stack 0 = [.critical addOneShot] := rfl
  have hstack' : s₄.stack 1 = [.locking .getSize] := rfl
  have h₄ : Observe removeSelf twoThreadsWaiting ⟨s₄, reqs, [done], []⟩ := .critical hstack
  have h₅ : Observe removeSelf ⟨s₄, reqs, [done], []⟩ ⟨s₅, reqs, [done], []⟩ :=
    @Observe.lock _ _ removeSelf ⟨s₄, reqs, [done], []⟩ 1 .getSize [] hstack' rfl
  have h₆ : Observe removeSelf ⟨s₅, reqs, [done], []⟩
      ⟨s₆, reqs, [done, (⟨1, .getSize⟩, .size 1)], []⟩ :=
    .critical (System.set_stack_self _ _ _ _)
  exact ⟨_, .tail (.tail (.tail twoThreadsWaiting_reachable h₄) h₅) h₆, rfl⟩

/-- Two threads, one behind the other, with a second as the interval. -/
theorem timer_calls_serialise_two_threads :
    ∃ fuel m, Runs.run (step fuel) (⟨[], none, 0⟩ : TimerManager Unit Name)
        [⟨0, addOneShot⟩, ⟨1, .getSize⟩] = some (m, [.added (.ok ()), .size 1]) ∧
      Runs.run (fun a (req : Request Unit Name) => some (mapStep a req.call)) (fun _ => none)
        [⟨0, addOneShot⟩, ⟨1, .getSize⟩] = some (m.toMap, [.added true, .size 1]) := by
  obtain ⟨o, ho, hcompleted⟩ := twoThreads_reachable
  obtain ⟨fuel, m, hrun, hmap, -⟩ := timer_calls_serialise removeSelf ho
  rw [hcompleted] at hrun hmap
  refine ⟨fuel, m, hrun, hmap ?_⟩
  refine Runs.along_cons.mpr ⟨?_, fun _ _ _ => Runs.along_cons.mpr ⟨trivial, fun _ _ _ =>
    Runs.along_nil _⟩⟩
  rintro - now ⟨⟩
  decide +kernel

/-! ## Every call once, in the order of its thread -/

/-- The call a frame is part of. -/
def Frame.call : Frame κ υ → Call κ υ
  | .locking call => call
  | .critical call => call
  | .traversing now _ => .update (some now)
  | .callback now _ _ => .update (some now)

/-- The call a thread is in, if it is in one: that of the outermost frame. -/
def pending (t : ThreadId) (stack : List (Frame κ υ)) : List (Request κ υ) :=
  stack.getLast?.toList.map fun frame => ⟨t, frame.call⟩

/-- The requests of one thread. -/
def ofThread (t : ThreadId) (reqs : List (Request κ υ)) : List (Request κ υ) :=
  reqs.filter fun req => req.self = t

/-- A thread has made the calls that have returned, in that order, and the one it is in. -/
def InOrder (o : Observed κ υ) : Prop :=
  ∀ t, ofThread t o.invoked =
    ofThread t (o.completed.map Prod.fst) ++ pending t (o.system.stack t)

theorem ofThread_concat (t : ThreadId) (reqs : List (Request κ υ)) (req : Request κ υ) :
    ofThread t (reqs ++ [req]) = ofThread t reqs ++ if req.self = t then [req] else [] := by
  rw [ofThread, List.filter_append]
  by_cases h : req.self = t <;> simp [ofThread, h]

/-- A step within a call. -/
theorem InOrder.within {o o' : Observed κ υ} (h : InOrder o) {t : ThreadId}
    {manager : TimerManager κ υ} {stack : List (Frame κ υ)}
    (hsystem : o'.system = o.system.set manager t stack) (hinvoked : o'.invoked = o.invoked)
    (hcompleted : o'.completed = o.completed)
    (hpending : pending t stack = pending t (o.system.stack t)) : InOrder o' := by
  intro t'
  rw [hsystem, hinvoked, hcompleted, h t']
  by_cases ht : t' = t
  · subst ht
    rw [System.set_stack_self, hpending]
  · rw [System.set_stack_of_ne _ _ ht]

/-- A step that ends a call. -/
theorem InOrder.ends {o o' : Observed κ υ} (h : InOrder o) {t : ThreadId} {frame : Frame κ υ}
    {answer : Answer κ υ} {manager : TimerManager κ υ} (hstack : o.system.stack t = [frame])
    (hsystem : o'.system = o.system.set manager t []) (hinvoked : o'.invoked = o.invoked)
    (hcompleted : o'.completed = o.completed ++ [(⟨t, frame.call⟩, answer)]) : InOrder o' := by
  intro t'
  rw [hsystem, hinvoked, hcompleted, h t', List.map_append]
  show _ = ofThread t' (_ ++ [(⟨t, frame.call⟩ : Request κ υ)]) ++ _
  rw [ofThread_concat]
  by_cases ht : t' = t
  · subst ht
    rw [System.set_stack_self, hstack, if_pos rfl]
    simp [pending]
  · rw [System.set_stack_of_ne _ _ ht, if_neg (Ne.symm ht), List.append_nil]

theorem Call.enter_call {call : Call κ υ} (h : call.locks = true) : call.enter.call = call := by
  rcases call with _ | _ | ⟨_ | now⟩ | _
  · rfl
  · rfl
  · cases h
  · rfl
  · rfl

/-- **One step keeps the order.** -/
theorem Observe.inOrder {o o' : Observed κ υ} (hlock : LockInv o.system)
    (hawaits : Awaits o.system) (h : InOrder o) (hstep : Observe behaviour o o') : InOrder o' := by
  cases hstep with
  | @invoke t call hidle hlocks =>
      intro t'
      dsimp only
      rw [ofThread_concat, h t']
      by_cases ht : t' = t
      · subst ht
        rw [System.set_stack_self, hidle, if_pos rfl]
        simp [pending, Frame.call]
      · rw [System.set_stack_of_ne _ _ ht, if_neg (Ne.symm ht), List.append_nil]
  | @lock t call rest hstack hfree =>
      obtain rfl := hlock.waiting hstack hfree
      refine h.within rfl rfl rfl ?_
      rw [hstack]
      show [(⟨t, call.enter.call⟩ : Request κ υ)] = [⟨t, call⟩]
      rw [Call.enter_call (hawaits t call [] hstack)]
  | @critical t call rest hstack =>
      obtain ⟨-, rfl⟩ := hlock.inside hstack (by simp)
      exact h.ends hstack rfl rfl rfl
  | @skip t now i rest e hstack he hdue =>
      obtain ⟨-, rfl⟩ := hlock.inside hstack (by simp)
      exact h.within rfl rfl rfl (by rw [hstack]; rfl)
  | @fire t now i rest e callback program hstack he hdue hcb hprogram =>
      obtain ⟨-, rfl⟩ := hlock.inside hstack (by simp)
      exact h.within rfl rfl rfl (by rw [hstack]; rfl)
  | @fireNull t now i rest e hstack he hdue hcb =>
      obtain ⟨-, rfl⟩ := hlock.inside hstack (by simp)
      exact h.within rfl rfl rfl (by rw [hstack]; rfl)
  | @refused t now i call program rest hstack hlocks =>
      obtain ⟨-, rfl⟩ := hlock.inside hstack (by simp)
      exact h.within rfl rfl rfl (by rw [hstack]; rfl)
  | @reenter t now i call program rest hstack hlocks =>
      obtain ⟨-, rfl⟩ := hlock.inside hstack (by simp)
      exact h.within rfl rfl rfl (by rw [hstack]; rfl)
  | @advance t now i rest e fuel next hstack he hloop =>
      obtain ⟨-, rfl⟩ := hlock.inside hstack (by simp)
      exact h.within rfl rfl rfl (by rw [hstack]; rfl)
  | @finish t now i rest hstack hend =>
      obtain ⟨-, rfl⟩ := hlock.inside hstack (by simp)
      exact h.ends hstack rfl rfl rfl

theorem Observed.Reachable.inOrder {o : Observed κ υ} (h : o.Reachable behaviour) : InOrder o := by
  induction h with
  | refl => exact fun _ => rfl
  | tail hreach hstep ih =>
      exact hstep.inOrder (Observed.Reachable.system hreach).lockInv
        (Observed.Reachable.serial hreach).2 ih

/-- What has returned stays returned, in its place. -/
theorem Observe.completed_prefix {o o' : Observed κ υ} (h : Observe behaviour o o') :
    o.completed <+: o'.completed := by
  cases h with
  | critical => exact List.prefix_append _ _
  | finish => exact List.prefix_append _ _
  | _ => exact List.prefix_rfl

/-- The thread is between `pthread_mutex_lock` and `pthread_mutex_unlock`. -/
def Inside (s : System κ υ) (t : ThreadId) : Prop :=
  ∃ frame ∈ s.stack t, ∀ call, frame ≠ .locking call

/-- Exactly the holder of the mutex is inside. -/
theorem LockInv.inside_iff {s : System κ υ} (hlock : LockInv s) (t : ThreadId) :
    Inside s t ↔ s.manager.mutex = some t := by
  have hheld : s.manager.heldBy t = true ↔ s.manager.mutex = some t := decide_eq_true_iff
  rw [← hheld]
  have hshape := hlock t
  unfold Inside
  generalize s.manager.heldBy t = held at hshape ⊢
  generalize s.stack t = stack at hshape ⊢
  cases hshape <;> simp

/-- While a thread holds the mutex, the steps of the others leave the manager alone. -/
theorem Step.manager_eq {s s' : System κ υ} (hlock : LockInv s) (h : Step behaviour s s')
    {t : ThreadId} (hheld : s.manager.mutex = some t) (hstack : s'.stack t = s.stack t) :
    s'.manager = s.manager := by
  -- the stack of the holder would change with the manager
  have hchange : ∀ {t' : ThreadId} {frame : Frame κ υ} {rest stack : List (Frame κ υ)}
      {manager : TimerManager κ υ}, s.stack t' = frame :: rest → (∀ call, frame ≠ .locking call) →
      (s.set manager t' stack).stack t = s.stack t → stack = frame :: rest := by
    intro t' frame rest stack manager h' hframe heq
    have hown := (hlock.inside h' hframe).1
    rw [hheld] at hown
    obtain rfl := Option.some.inj hown
    rw [System.set_stack_self, h'] at heq
    exact heq
  cases h with
  | lock _ hfree =>
      rw [hheld] at hfree
      cases hfree
  | @critical t' call rest h' =>
      have heq := hchange h' (by simp) hstack
      exact absurd heq (List.cons_ne_self _ _).symm
  | advance h' =>
      have heq := hchange h' (by simp) hstack
      cases heq
  | finish h' =>
      have heq := hchange h' (by simp) hstack
      exact absurd heq (List.cons_ne_self _ _).symm
  | _ => rfl

/-- **Mutual exclusion, and every call once.**  At every moment, whatever the scheduler and the
callbacks do: at most one thread is inside a critical section, and while it is there only
its own steps change the manager; a thread has made exactly the calls of it that have
returned, in that order, and the one it is in; and what has returned keeps its place, so
that a call made after another one has returned comes behind it. -/
theorem timer_mutual_exclusion (behaviour : κ → υ → Set (List (Call κ υ))) {o : Observed κ υ}
    (h : o.Reachable behaviour) :
    (∀ t t', Inside o.system t → Inside o.system t' → t = t') ∧
      (∀ t s', Inside o.system t → Step behaviour o.system s' →
        s'.stack t = o.system.stack t → s'.manager = o.system.manager) ∧
      (∀ t, ofThread t o.invoked =
        ofThread t (o.completed.map Prod.fst) ++ pending t (o.system.stack t)) ∧
      ∀ o', Relation.ReflTransGen (Observe behaviour) o o' → o.completed <+: o'.completed := by
  have hlock : LockInv o.system := (Observed.Reachable.system h).lockInv
  refine ⟨?_, ?_, h.inOrder, ?_⟩
  · intro t t' ht ht'
    rw [hlock.inside_iff] at ht ht'
    rw [ht] at ht'
    exact Option.some.inj ht'
  · intro t s' ht hstep hstack
    exact hstep.manager_eq hlock ((hlock.inside_iff t).mp ht) hstack
  · intro o' hsteps
    induction hsteps with
    | refl => exact List.prefix_rfl
    | tail _ hstep ih => exact ih.trans hstep.completed_prefix

/-- While one thread adds a timer and another one waits to ask for the size. -/
theorem timer_mutual_exclusion_two_threads :
    Inside twoThreadsWaiting.system 0 ∧ ¬ Inside twoThreadsWaiting.system 1 ∧
      ofThread 1 twoThreadsWaiting.invoked = pending 1 (twoThreadsWaiting.system.stack 1) := by
  obtain ⟨hone, -, horder, -⟩ := timer_mutual_exclusion removeSelf twoThreadsWaiting_reachable
  have hinside : Inside twoThreadsWaiting.system 0 :=
    ⟨.critical addOneShot, List.mem_cons_self, by simp⟩
  refine ⟨hinside, fun h => ?_, horder 1⟩
  cases hone 0 1 hinside h

end Timer
