/-
# When the timer calls return

The mutex is given back at the end of every critical section, so that a call waits for
the call of another thread and no longer; and that call waits for nobody, unless its
callbacks lock again (`TimerLock.lean`).  What is left is the catch-up loop, which stands
still at an interval below a nanosecond: `timer_update_releases_iff` says that such a timer
blocks the library for all threads from the moment it falls due, and that, where the times
have room in `tv_sec`, nothing else does.
-/
import RouterTools.TimerThreads

namespace Timer

variable {κ υ : Type*} {behaviour : κ → υ → Set (List (Call κ υ))}

/-! ## The chain at every moment -/

/-- What a chain keeps while it is traversed. -/
structure SameTimers (m manager : TimerManager κ υ) : Prop where
  names : manager.names = m.names
  size : manager.size = m.size
  wellFormed : ∀ e ∈ manager.head, e.WellFormed

theorem Traversed.sameTimers {m manager : TimerManager κ υ} {now : ClockTime} {i : ℕ}
    {fired : List (Invocation κ υ)} {t : ThreadId} (h : Traversed m now i fired manager t)
    (hm : m.Inv) : SameTimers m manager := by
  obtain ⟨-, fuel, front, hfront, rfl⟩ := h
  obtain ⟨hall, -⟩ := updateEntries_spec hfront
  refine ⟨?_, rfl, ?_⟩
  · show (front ++ m.head.drop i).map TimerEntry.name = m.head.map TimerEntry.name
    rw [List.map_append, names_eq_of_forall₂ hall, ← List.map_append, List.take_append_drop]
  · intro e he
    rcases List.mem_append.mp he with hfront | hrest
    · obtain ⟨e₀, he₀, hupd⟩ := forall₂_mem hall hfront
      exact hupd.wellFormed (hm.wellFormed e₀ (List.mem_of_mem_take he₀))
    · exact hm.wellFormed e (List.mem_of_mem_drop hrest)

theorem Progress.sameTimers {m manager : TimerManager κ υ} {fired : List (Invocation κ υ)}
    {t : ThreadId} {stack : List (Frame κ υ)} (hm : m.Inv) {held : Bool} (hshape : Shape held stack)
    (h : Progress m fired manager t stack) : SameTimers m manager := by
  cases hshape with
  | idle => exact h.elim
  | waiting => exact h.elim
  | critical call =>
      obtain ⟨-, -, rfl⟩ := h
      exact ⟨rfl, rfl, hm.wellFormed⟩
  | traversing => exact Traversed.sameTimers h hm
  | callback =>
      obtain ⟨_, _, -, -, -, htrav⟩ := h
      exact htrav.sameTimers hm
  | reentrant =>
      obtain ⟨_, _, -, -, -, htrav⟩ := h
      exact htrav.sameTimers hm

/-- At every moment the chain has the timers of a manager of the invariant. -/
theorem System.Reachable.sameTimers {s : System κ υ} (h : System.Reachable behaviour s) :
    ∃ m : TimerManager κ υ, m.Inv ∧ SameTimers m s.manager := by
  obtain ⟨o, ho, rfl⟩ := h.observed
  obtain ⟨⟨m, hseq, hcur⟩, -⟩ := ho.serial
  refine ⟨m, hseq.inv, ?_⟩
  cases hmutex : o.system.manager.mutex with
  | none =>
      rw [hcur.of_free hmutex]
      exact ⟨rfl, rfl, hseq.inv.wellFormed⟩
  | some t => exact (hcur.of_held hmutex rfl).sameTimers hseq.inv (h.lockInv t)

/-- **The chain is well formed at every moment**, inside the critical sections too: while a
callback runs the names are distinct, the size is the number of entries, no interval is at or
below zero, and the `next_run_time` of an interval that is a number is a valid time. -/
theorem timer_chain_always_well_formed (behaviour : κ → υ → Set (List (Call κ υ)))
    {s : System κ υ} (h : System.Reachable behaviour s) :
    s.manager.names.Nodup ∧ s.manager.size = s.manager.head.length ∧
      ∀ e ∈ s.manager.head, ¬ e.intervalSeconds.NonPos ∧
        (e.intervalSeconds.Positive → e.nextRunTime.Valid) := by
  obtain ⟨m, hm, hsame⟩ := h.sameTimers
  have hlen := congrArg List.length hsame.names
  rw [TimerManager.names, TimerManager.names, List.length_map, List.length_map] at hlen
  refine ⟨?_, ?_, fun e he => ⟨(hsame.wellFormed e he).accepted, (hsame.wellFormed e he).valid⟩⟩
  · rw [hsame.names]
    exact hm.distinct
  · rw [hsame.size, hm.size_eq, hlen]

/-- While the callback of the one-shot timer runs. -/
theorem timer_chain_always_well_formed_one_shot :
    oneShotFiring.manager.names.Nodup ∧ oneShotFiring.manager.size = 1 ∧
      ∀ e ∈ oneShotFiring.manager.head, e.nextRunTime.Valid := by
  obtain ⟨hnames, hsize, hentries⟩ :=
    timer_chain_always_well_formed removeSelf oneShotFiring_reachable
  refine ⟨hnames, hsize, fun e he => (hentries e he).2 ?_⟩
  rw [List.mem_singleton.mp he]
  decide +kernel

/-! ## The holder of the mutex -/

/-- Every callback returns, and makes no call that locks. -/
def Returns (behaviour : κ → υ → Set (List (Call κ υ))) : Prop :=
  ∀ callback userData, (behaviour callback userData).Nonempty ∧
    ∀ program ∈ behaviour callback userData, ∀ call ∈ program, call.locks = false

/-- Half of the seconds that `tv_sec` has room for, in nanoseconds. -/
@[reducible] def halfOfTime : ℤ := 2 ^ 62 * nsecPerSec

/-- The interval is at least a nanosecond, and at most 2^62 seconds. -/
def Double.Moderate (s : Double) : Prop := 1 ≤ increment s ∧ increment s ≤ halfOfTime

/-- A call that asks for no other interval, and no update at 2^62 seconds or later. -/
def Call.Productive : Call κ υ → Prop
  | .add _ s _ _ _ => ¬ s.NonPos → s.Moderate
  | .update clock => ∀ now ∈ clock, now.1.value < halfOfTime
  | _ => True

/-- No timer of the chain has another interval, and no other call is under way. -/
structure Productive (s : System κ υ) : Prop where
  chain : ∀ e ∈ s.manager.head, e.intervalSeconds.Moderate
  calls : ∀ t, ∀ frame ∈ s.stack t, frame.call.Productive

theorem Productive.set {s : System κ υ} (h : Productive s) {manager : TimerManager κ υ}
    {t : ThreadId} {stack : List (Frame κ υ)}
    (hchain : ∀ e ∈ manager.head, e.intervalSeconds.Moderate)
    (hstack : ∀ frame ∈ stack, frame.call.Productive) : Productive (s.set manager t stack) := by
  refine ⟨hchain, fun t' => ?_⟩
  by_cases ht : t' = t
  · subst ht
    rw [System.set_stack_self]
    exact hstack
  · rw [System.set_stack_of_ne _ _ ht]
    exact h.calls t'

/-- A call adds no interval but its own. -/
theorem Outcome.productive {m m' : TimerManager κ υ} {call : Call κ υ} {answer : Answer κ υ}
    (h : Outcome m call m' answer) (hm : ∀ e ∈ m.head, e.intervalSeconds.Moderate)
    (hcall : call.Productive) : ∀ e ∈ m'.head, e.intervalSeconds.Moderate := by
  cases h with
  | added hadd hnow => exact List.forall_mem_cons.mpr ⟨hcall hadd.1.2.2, hm⟩
  | removed => exact fun e he => hm e (mem_of_mem_remove he)
  | updated hall =>
      intro e' he'
      obtain ⟨e, he, hupd⟩ := forall₂_mem hall he'
      rw [hupd.same]
      exact hm e he
  | _ => exact hm

/-- **No step brings in another interval** but that of a new call. -/
theorem Productive.step (hreturns : Returns behaviour) {s s' : System κ υ}
    (hreach : System.Reachable behaviour s) (h : Productive s) (hstep : Step behaviour s s')
    (hcalls : ∀ t, s.stack t = [] → s'.stack t = []) : Productive s' := by
  have hrest : ∀ {t : ThreadId} {frame : Frame κ υ} {rest : List (Frame κ υ)},
      s.stack t = frame :: rest → ∀ f ∈ rest, f.call.Productive := by
    intro t frame rest hstack f hf
    exact h.calls t f (by rw [hstack]; exact List.mem_cons_of_mem frame hf)
  -- a frame that is part of the same call
  have hsame : ∀ {t : ThreadId} {frame frame' : Frame κ υ} {rest : List (Frame κ υ)},
      s.stack t = frame :: rest → frame'.call = frame.call →
      ∀ f ∈ frame' :: rest, f.call.Productive := by
    intro t frame frame' rest hstack hcall
    refine List.forall_mem_cons.mpr ⟨?_, hrest hstack⟩
    rw [hcall]
    exact h.calls t frame (by rw [hstack]; exact List.mem_cons_self)
  cases hstep with
  | @invoke t call hidle hlocks =>
      have hnil := hcalls t hidle
      rw [System.set_stack_self] at hnil
      cases hnil
  | @lock t call rest hstack hfree =>
      refine h.set h.chain (hsame hstack ?_)
      obtain ⟨o, ho, rfl⟩ := hreach.observed
      exact Call.enter_call (ho.serial.2 t call rest hstack)
  | @critical t call rest hstack =>
      obtain ⟨o, ho, rfl⟩ := hreach.observed
      obtain ⟨⟨m, hseq, hcur⟩, -⟩ := ho.serial
      obtain ⟨hheld, rfl⟩ := hreach.lockInv.inside hstack (by simp)
      obtain ⟨hlocks, hcall, hm⟩ := hcur.of_held hheld hstack
      have hout := step_outcome hseq.inv (step_criticalSection hlocks hcall 0 t m)
      have hchain := h.chain
      rw [hm] at hchain ⊢
      have hproductive : call.Productive := h.calls t (.critical call) (by rw [hstack]; simp)
      exact h.set (hout.productive hchain hproductive) (by simp)
  | skip hstack => exact h.set h.chain (hsame hstack rfl)
  | fire hstack => exact h.set h.chain (hsame hstack rfl)
  | fireNull hstack => exact h.set h.chain (hsame hstack rfl)
  | refused hstack => exact h.set h.chain (hsame hstack rfl)
  | @reenter t now i call program rest hstack hlocks =>
      -- no callback makes a call that locks
      obtain ⟨-, rfl⟩ := hreach.lockInv.inside hstack (by simp)
      have hquiet := hreach.quiet (fun callback userData => (hreturns callback userData).2)
      have hrefused := (hquiet t call).2 now i _ hstack call List.mem_cons_self
      rw [hlocks] at hrefused
      cases hrefused
  | @advance t now i rest e fuel next hstack he hloop =>
      refine h.set ?_ (hsame hstack rfl)
      intro e' he'
      rcases List.mem_or_eq_of_mem_set he' with hmem | rfl
      · exact h.chain e' hmem
      · exact h.chain e (List.mem_of_getElem? he)
  | finish hstack => exact h.set h.chain (hrest hstack)

/-- The mutex can be given back by steps of its holder `t` alone. -/
def Releases (behaviour : κ → υ → Set (List (Call κ υ))) (s : System κ υ) (t : ThreadId) : Prop :=
  ∃ s', Relation.ReflTransGen (Step behaviour) s s' ∧ s'.manager.mutex = none ∧ s'.stack t = [] ∧
    (∀ t', t' ≠ t → s'.stack t' = s.stack t') ∧ (Productive s → Productive s')

/-- A step of a thread that is not in client code starts no call. -/
theorem productive_set (hreturns : Returns behaviour) {s : System κ υ}
    (hreach : System.Reachable behaviour s) {t : ThreadId} (hbusy : s.stack t ≠ [])
    {manager : TimerManager κ υ} {stack : List (Frame κ υ)}
    (hstep : Step behaviour s (s.set manager t stack)) (h : Productive s) :
    Productive (s.set manager t stack) := by
  refine h.step hreturns hreach hstep fun t' hidle => ?_
  have hne : t' ≠ t := by
    rintro rfl
    exact hbusy hidle
  rw [System.set_stack_of_ne _ _ hne, hidle]

/-- A step of the holder on the way. -/
theorem Releases.step (hreturns : Returns behaviour) {s : System κ υ}
    (hreach : System.Reachable behaviour s) {t : ThreadId} (hbusy : s.stack t ≠ [])
    {manager : TimerManager κ υ} {stack : List (Frame κ υ)}
    (hstep : Step behaviour s (s.set manager t stack))
    (h : Releases behaviour (s.set manager t stack) t) : Releases behaviour s t := by
  obtain ⟨s', hsteps, hfree, hidle, hothers, hproductive⟩ := h
  refine ⟨s', .head hstep hsteps, hfree, hidle, ?_, ?_⟩
  · intro t' ht'
    rw [hothers t' ht', System.set_stack_of_ne _ _ ht']
  · exact fun h => hproductive (productive_set hreturns hreach hbusy hstep h)

/-- The last step of the holder. -/
theorem Releases.last (hreturns : Returns behaviour) {s : System κ υ}
    (hreach : System.Reachable behaviour s) {t : ThreadId} (hbusy : s.stack t ≠ [])
    {manager : TimerManager κ υ} (hstep : Step behaviour s (s.set manager t []))
    (hfree : manager.mutex = none) : Releases behaviour s t :=
  ⟨_, .single hstep, hfree, System.set_stack_self _ _ _ _,
    fun _ ht' => System.set_stack_of_ne _ _ ht' _,
    productive_set hreturns hreach hbusy hstep⟩

/-- From position `i` on, the loops of the entries that are due come to their end. -/
def CanCatchUp (manager : TimerManager κ υ) (now : ClockTime) (i : ℕ) : Prop :=
  ∀ j e, i ≤ j → manager.head[j]? = some e → timespecCompare now.1 e.nextRunTime ≥ 0 →
    ∃ fuel t, catchUp fuel now.1 e.intervalSeconds e.nextRunTime = some t

theorem CanCatchUp.succ {manager : TimerManager κ υ} {now : ClockTime} {i : ℕ}
    (h : CanCatchUp manager now i) : CanCatchUp manager now (i + 1) :=
  fun j e hj => h j e (by omega)

/-- What is done to an entry does not matter to those behind it. -/
theorem CanCatchUp.set {manager : TimerManager κ υ} {now : ClockTime} {i : ℕ}
    (h : CanCatchUp manager now i) (e' : TimerEntry κ υ) :
    CanCatchUp { manager with head := manager.head.set i e' } now (i + 1) := by
  intro j e hj he hdue
  have hget : (manager.head.set i e')[j]? = some e := he
  rw [List.getElem?_set_ne (by omega)] at hget
  exact h j e (by omega) hget hdue

section Traversal

variable {s : System κ υ} {t : ThreadId} {now : ClockTime} {i : ℕ}

/-- **A callback and the catch-up loop behind it** come to their end. -/
theorem releases_callback (hreturns : Returns behaviour)
    (hreach : System.Reachable behaviour s) {program : List (Call κ υ)}
    (hstack : s.stack t = [.callback now i program])
    (hquiet : ∀ call ∈ program, call.locks = false) (hcatch : CanCatchUp s.manager now i)
    (hnext : ∀ s' : System κ υ, System.Reachable behaviour s' →
      s'.stack t = [.traversing now (i + 1)] → s'.manager.head.length = s.manager.head.length →
      CanCatchUp s'.manager now (i + 1) → Releases behaviour s' t) :
    Releases behaviour s t := by
  induction program generalizing s with
  | cons call program ih =>
      -- a call that does not lock is refused
      have hstep : Step behaviour s _ := .refused hstack (hquiet call List.mem_cons_self)
      refine .step hreturns hreach (by simp [hstack]) hstep
        (ih (.tail hreach hstep) (System.set_stack_self _ _ _ _) ?_ hcatch hnext)
      exact fun c hc => hquiet c (List.mem_cons_of_mem call hc)
  | nil =>
      obtain ⟨o, ho, rfl⟩ := hreach.observed
      obtain ⟨⟨m, hseq, hcur⟩, -⟩ := ho.serial
      have hheld := (hreach.lockInv.inside hstack (by simp)).1
      obtain ⟨e, fired, he, hdue, -, htrav⟩ := hcur.of_held hheld hstack
      rw [← htrav.getElem?] at he
      obtain ⟨fuel, next, hloop⟩ := hcatch i e le_rfl he hdue
      have hstep : Step behaviour o.system _ := .advance hstack he hloop
      refine .step hreturns hreach (by simp [hstack]) hstep
        (hnext _ (.tail hreach hstep) (System.set_stack_self _ _ _ _) ?_ ?_)
      · simp
      · exact hcatch.set _

/-- **The traversal** comes to its end. -/
theorem releases_traversing (hreturns : Returns behaviour) :
    ∀ (n : ℕ) {s : System κ υ} {i : ℕ}, System.Reachable behaviour s →
      s.stack t = [.traversing now i] → s.manager.head.length - i ≤ n →
      CanCatchUp s.manager now i → Releases behaviour s t := by
  intro n
  induction n with
  | zero =>
      intro s i hreach hstack hlen hcatch
      have hend : s.manager.head[i]? = none := List.getElem?_eq_none_iff.mpr (by omega)
      exact .last hreturns hreach (by simp [hstack]) (.finish hstack hend) rfl
  | succ n ih =>
      intro s i hreach hstack hlen hcatch
      cases he : s.manager.head[i]? with
      | none => exact .last hreturns hreach (by simp [hstack]) (.finish hstack he) rfl
      | some e =>
          have hlt : i < s.manager.head.length := (List.getElem?_eq_some_iff.mp he).1
          by_cases hdue : timespecCompare now.1 e.nextRunTime ≥ 0
          · -- the callback, then the rest of the chain
            have hrest : ∀ s' : System κ υ, System.Reachable behaviour s' →
                s'.stack t = [.traversing now (i + 1)] →
                s'.manager.head.length = s.manager.head.length →
                CanCatchUp s'.manager now (i + 1) → Releases behaviour s' t := by
              intro s' hreach' hstack' hlen' hcatch'
              exact ih hreach' hstack' (by omega) hcatch'
            cases hcb : e.callback with
            | none =>
                have hstep : Step behaviour s _ := .fireNull hstack he hdue hcb
                exact .step hreturns hreach (by simp [hstack]) hstep
                  (releases_callback hreturns (.tail hreach hstep)
                    (System.set_stack_self _ _ _ _) (by simp) hcatch hrest)
            | some callback =>
                obtain ⟨⟨program, hprogram⟩, hquiet⟩ := hreturns callback e.userData
                have hstep : Step behaviour s _ := .fire hstack he hdue hcb hprogram
                exact .step hreturns hreach (by simp [hstack]) hstep
                  (releases_callback hreturns (.tail hreach hstep)
                    (System.set_stack_self _ _ _ _) (hquiet program hprogram) hcatch hrest)
          · have hstep : Step behaviour s _ := .skip hstack he (not_le.mp hdue)
            exact .step hreturns hreach (by simp [hstack]) hstep
              (ih (.tail hreach hstep) (System.set_stack_self _ _ _ _)
                (by rw [System.set_manager]; omega) hcatch.succ)

end Traversal

/-! ## A timer whose loop does not end -/

/-- The thread is in `timer_update`, at position `i`, with no locking call to make. -/
def Updating (s : System κ υ) (t : ThreadId) (now : ClockTime) (i : ℕ) : Prop :=
  s.stack t = [.traversing now i] ∨
    ∃ program, s.stack t = [.callback now i program] ∧ ∀ call ∈ program, call.locks = false

/-- The thread has the entry `e` at position `j` ahead of it, or is at it. -/
def Before (s : System κ υ) (t : ThreadId) (now : ClockTime) (j : ℕ) (e : TimerEntry κ υ) : Prop :=
  s.manager.head[j]? = some e ∧ ∃ i ≤ j, Updating s t now i

/-- **Nobody gets past an entry that cannot be caught up.** -/
theorem Before.step (hreturns : Returns behaviour) {s s' : System κ υ} {t : ThreadId}
    {now : ClockTime} {j : ℕ} {e : TimerEntry κ υ} (hreach : System.Reachable behaviour s)
    (hdue : timespecCompare now.1 e.nextRunTime ≥ 0)
    (hstill : ∀ fuel, catchUp fuel now.1 e.intervalSeconds e.nextRunTime = none)
    (h : Before s t now j e) (hstep : Step behaviour s s') : Before s' t now j e := by
  obtain ⟨he, i, hi, hupd⟩ := h
  have hlock : LockInv s := hreach.lockInv
  have hheld : s.manager.mutex = some t := by
    rcases hupd with hstack | ⟨program, hstack, -⟩
    · exact (hlock.inside hstack (by simp)).1
    · exact (hlock.inside hstack (by simp)).1
  -- a thread inside is this thread
  have hself : ∀ {t' : ThreadId} {frame : Frame κ υ} {rest : List (Frame κ υ)},
      s.stack t' = frame :: rest → (∀ call, frame ≠ .locking call) → t' = t ∧ rest = [] := by
    intro t' frame rest hstack hframe
    obtain ⟨hown, hrest⟩ := hlock.inside hstack hframe
    rw [hheld] at hown
    exact ⟨(Option.some.inj hown).symm, hrest⟩
  have hnext : ∀ {i' : ℕ} {manager : TimerManager κ υ} {stack : List (Frame κ υ)}, i' ≤ j →
      manager.head[j]? = some e → Updating (s.set manager t stack) t now i' →
      Before (s.set manager t stack) t now j e :=
    fun hle hget hupd' => ⟨hget, _, hle, hupd'⟩
  cases hstep with
  | @invoke t' call hidle hlocks =>
      have hne : t ≠ t' := by
        rintro rfl
        rcases hupd with hstack | ⟨program, hstack, -⟩ <;> rw [hidle] at hstack <;> cases hstack
      refine ⟨he, i, hi, ?_⟩
      unfold Updating
      rw [System.set_stack_of_ne _ _ hne]
      exact hupd
  | lock _ hfree =>
      rw [hheld] at hfree
      cases hfree
  | critical h' =>
      obtain ⟨rfl, -⟩ := hself h' (by simp)
      rcases hupd with hstack | ⟨program, hstack, -⟩ <;> rw [h'] at hstack <;> cases hstack
  | @skip t' now' i' rest e' h' he' hdue' =>
      obtain ⟨rfl, rfl⟩ := hself h' (by simp)
      rcases hupd with hstack | ⟨program, hstack, -⟩ <;> rw [h'] at hstack <;> cases hstack
      have hne : i ≠ j := by
        rintro rfl
        rw [he] at he'
        cases he'
        omega
      exact hnext (by omega) he (.inl (System.set_stack_self _ _ _ _))
  | @fire t' now' i' rest e' callback program h' he' hdue' hcb hprogram =>
      obtain ⟨rfl, rfl⟩ := hself h' (by simp)
      rcases hupd with hstack | ⟨program, hstack, -⟩ <;> rw [h'] at hstack <;> cases hstack
      exact hnext hi he (.inr ⟨_, System.set_stack_self _ _ _ _,
        (hreturns callback e'.userData).2 _ hprogram⟩)
  | @fireNull t' now' i' rest e' h' he' hdue' hcb =>
      obtain ⟨rfl, rfl⟩ := hself h' (by simp)
      rcases hupd with hstack | ⟨program, hstack, -⟩ <;> rw [h'] at hstack <;> cases hstack
      exact hnext hi he (.inr ⟨_, System.set_stack_self _ _ _ _, by simp⟩)
  | @refused t' now' i' call program rest h' hlocks =>
      obtain ⟨rfl, rfl⟩ := hself h' (by simp)
      rcases hupd with hstack | ⟨program', hstack, hquiet⟩ <;> rw [h'] at hstack <;> cases hstack
      exact hnext hi he (.inr ⟨_, System.set_stack_self _ _ _ _,
        fun c hc => hquiet c (List.mem_cons_of_mem call hc)⟩)
  | @reenter t' now' i' call program rest h' hlocks =>
      obtain ⟨rfl, rfl⟩ := hself h' (by simp)
      rcases hupd with hstack | ⟨program', hstack, hquiet⟩ <;> rw [h'] at hstack <;> cases hstack
      have hrefused := hquiet call List.mem_cons_self
      rw [hlocks] at hrefused
      cases hrefused
  | @advance t' now' i' rest e' fuel next h' he' hloop =>
      obtain ⟨rfl, rfl⟩ := hself h' (by simp)
      rcases hupd with hstack | ⟨program', hstack, hquiet⟩ <;> rw [h'] at hstack <;> cases hstack
      have hne : i ≠ j := by
        rintro rfl
        rw [he] at he'
        cases he'
        rw [hstill] at hloop
        cases hloop
      refine hnext (by omega) ?_ (.inl (System.set_stack_self _ _ _ _))
      show (s.manager.head.set i _)[j]? = some e
      rw [List.getElem?_set_ne hne, he]
  | @finish t' now' i' rest h' hend =>
      obtain ⟨rfl, rfl⟩ := hself h' (by simp)
      rcases hupd with hstack | ⟨program', hstack, hquiet⟩ <;> rw [h'] at hstack <;> cases hstack
      -- the chain does not end in front of the entry
      have hlt := (List.getElem?_eq_some_iff.mp he).1
      rw [List.getElem?_eq_none_iff] at hend
      omega

/-- An update can give the mutex back exactly when the loops ahead of it come to their end. -/
theorem releases_iff_canCatchUp (hreturns : Returns behaviour) {s : System κ υ}
    (hreach : System.Reachable behaviour s) {t : ThreadId} {now : ClockTime} {i : ℕ}
    (hupd : Updating s t now i) :
    (∃ s', Relation.ReflTransGen (Step behaviour) s s' ∧ s'.manager.mutex = none) ↔
      CanCatchUp s.manager now i := by
  constructor
  · rintro ⟨s', hsteps, hfree⟩ j e hj he hdue
    by_contra hnot
    have hstill : ∀ fuel, catchUp fuel now.1 e.intervalSeconds e.nextRunTime = none := by
      intro fuel
      rw [Option.eq_none_iff_forall_ne_some]
      exact fun t ht => hnot ⟨fuel, t, ht⟩
    have hbefore : System.Reachable behaviour s' ∧ Before s' t now j e := by
      clear hfree
      induction hsteps with
      | refl => exact ⟨hreach, he, i, hj, hupd⟩
      | tail _ hstep ih => exact ⟨.tail ih.1 hstep, ih.2.step hreturns ih.1 hdue hstill hstep⟩
    -- whoever is still updating still holds the mutex
    obtain ⟨hreach', -, i', -, hupd'⟩ := hbefore
    have hheld : s'.manager.mutex = some t := by
      rcases hupd' with hstack | ⟨program, hstack, -⟩
      · exact (hreach'.lockInv.inside hstack (by simp)).1
      · exact (hreach'.lockInv.inside hstack (by simp)).1
    rw [hfree] at hheld
    cases hheld
  · intro hcatch
    have hreleases : Releases behaviour s t := by
      rcases hupd with hstack | ⟨program, hstack, hquiet⟩
      · exact releases_traversing hreturns _ hreach hstack le_rfl hcatch
      · refine releases_callback hreturns hreach hstack hquiet hcatch ?_
        intro s' hreach' hstack' _ hcatch'
        exact releases_traversing hreturns _ hreach' hstack' le_rfl hcatch'
    obtain ⟨s', hsteps, hfree, -⟩ := hreleases
    exact ⟨s', hsteps, hfree⟩

/-- **When `timer_update` gives the mutex back**: with callbacks that return and do not lock,
and room for the timers that are due and still ahead of it, it can exactly when none of them
has an interval below a nanosecond.  Such a timer blocks every thread for good. -/
theorem timer_update_releases_iff (hreturns : Returns behaviour) {s : System κ υ}
    (hreach : System.Reachable behaviour s) {t : ThreadId} {now : ClockTime} {i : ℕ}
    (hupd : Updating s t now i)
    (hroom : ∀ j e, i ≤ j → s.manager.head[j]? = some e →
      timespecCompare now.1 e.nextRunTime ≥ 0 → e.Sound ∧ e.HasRoom now.1) :
    (∃ s', Relation.ReflTransGen (Step behaviour) s s' ∧ s'.manager.mutex = none) ↔
      ∀ j e, i ≤ j → s.manager.head[j]? = some e → timespecCompare now.1 e.nextRunTime ≥ 0 →
        1 ≤ increment e.intervalSeconds := by
  rw [releases_iff_canCatchUp hreturns hreach hupd]
  refine forall₂_congr fun j e => forall₂_congr fun hj he => forall_congr' fun hdue => ?_
  obtain ⟨hsound, hhas⟩ := hroom j e hj he hdue
  constructor
  · rintro ⟨fuel, next, hloop⟩
    by_contra hlt
    have hnonneg := increment_nonneg hsound.positive
    cases (hsound.catchUp_diverges (by omega) hdue fuel).symm.trans hloop
  · exact fun hinc => hsound.catchUp_terminates hhas now.2.1 hinc

/-- A callback that makes no call. -/
def silent (_ : Unit) (_ : Name) : Set (List (Call Unit Name)) := {[]}

theorem silent_returns : Returns silent := by
  intro callback userData
  refine ⟨⟨[], rfl⟩, ?_⟩
  rintro program rfl call hcall
  cases hcall

theorem valid_two : Timespec.Valid ⟨2, 0⟩ := by decide

/-- Thread 0 is about to look at the one-shot timer at 2 s. -/
def oneShotUpdating : System Unit Name :=
  System.set System.init (oneShotTimer.lock 0) 0 [.traversing ⟨⟨2, 0⟩, valid_two⟩ 0]

theorem oneShotUpdating_reachable : System.Reachable silent oneShotUpdating := by
  let now : ClockTime := ⟨⟨2, 0⟩, by decide⟩
  let empty : TimerManager Unit Name := ⟨[], none, 0⟩
  let s₁ := System.init.set empty 0 [.locking addOneShot]
  let s₂ := s₁.set (empty.lock 0) 0 [.critical addOneShot]
  let s₃ := s₂.set oneShotTimer 0 []
  let s₄ := s₃.set oneShotTimer 0 [.locking (.update (some now))]
  let s₅ := s₄.set (oneShotTimer.lock 0) 0 [.traversing now 0]
  have hadd : criticalSection (empty.lock 0) addOneShot = oneShotTimer := by decide +kernel
  have h₁ : Step silent System.init s₁ := .invoke rfl (by decide +kernel)
  have h₂ : Step silent s₁ s₂ := .lock (System.set_stack_self _ _ _ _) rfl
  have h₃ : Step silent s₂ (s₂.set (criticalSection (empty.lock 0) addOneShot) 0 []) :=
    .critical (System.set_stack_self _ _ _ _)
  rw [hadd] at h₃
  have h₄ : Step silent s₃ s₄ := .invoke (System.set_stack_self _ _ _ _) rfl
  have h₅ : Step silent s₄ s₅ := .lock (System.set_stack_self _ _ _ _) rfl
  have heq : s₅ = oneShotUpdating := by
    simp only [s₅, s₄, s₃, s₂, s₁, System.set, Function.update_idem]
    rfl
  exact heq ▸ .tail (.tail (.tail (.tail (.tail .refl h₁) h₂) h₃) h₄) h₅

/-- The one-shot timer has an interval of a second. -/
theorem timer_update_releases_one_shot :
    ∃ s', Relation.ReflTransGen (Step silent) oneShotUpdating s' ∧ s'.manager.mutex = none := by
  have hentry : ∀ {j : ℕ} {e : TimerEntry Unit Name},
      oneShotUpdating.manager.head[j]? = some e → e = ⟨[97], ⟨1, 0⟩, .finite 1, some (), [97]⟩ :=
    fun he => List.mem_singleton.mp (List.mem_of_getElem? he)
  refine (timer_update_releases_iff silent_returns oneShotUpdating_reachable
    (.inl (System.set_stack_self _ _ _ _)) ?_).mpr ?_
  · intro j e _ he _
    rw [hentry he]
    exact ⟨⟨by decide +kernel, by decide +kernel, by decide⟩, fun _ => by decide +kernel⟩
  · intro j e _ he _
    rw [hentry he]
    decide +kernel

/-! ## All threads -/

/-- Moderate intervals have room, at readings below 2^62 seconds. -/
theorem Productive.canCatchUp {s : System κ υ} (hreach : System.Reachable behaviour s)
    (h : Productive s) {now : ClockTime} (hnow : now.1.value < halfOfTime) (i : ℕ) :
    CanCatchUp s.manager now i := by
  intro j e _ he _
  have hmem : e ∈ s.manager.head := List.mem_of_getElem? he
  obtain ⟨hinc, hmax⟩ := h.chain e hmem
  obtain ⟨m, -, hsame⟩ := hreach.sameTimers
  have hpos := Double.positive_of_increment hinc
  have hdouble : halfOfTime + halfOfTime = endOfTime := by norm_num
  have hsound : e.Sound := by
    refine ⟨hpos, ?_, (hsame.wellFormed e hmem).valid hpos⟩
    have hhalf : 0 < halfOfTime := by norm_num
    omega
  refine hsound.catchUp_terminates (fun hdue => ?_) now.2.1 hinc
  -- the next point is at most an increment behind the reading
  have hle := Int.ediv_mul_le (now.1.value - e.nextRunTime.value)
    (by omega : increment e.intervalSeconds ≠ 0)
  rw [nextPoint, if_pos hdue, add_mul, one_mul]
  omega

/-- The holder of the mutex can give it back, from any place in its call. -/
theorem releases_of_held (hreturns : Returns behaviour) {s : System κ υ}
    (hreach : System.Reachable behaviour s) (hproductive : Productive s) {t : ThreadId}
    (hheld : s.manager.mutex = some t) : Releases behaviour s t := by
  have hshape := hreach.lockInv t
  have hb : s.manager.heldBy t = true := decide_eq_true hheld
  rw [hb] at hshape
  have hcatch : ∀ now i, (∃ frame ∈ s.stack t, frame.call = .update (some now)) →
      CanCatchUp s.manager now i := by
    rintro now i ⟨frame, hframe, hcall⟩
    have hcalls := hproductive.calls t frame hframe
    rw [hcall] at hcalls
    exact hproductive.canCatchUp hreach (hcalls now rfl) i
  have hquiet := hreach.quiet (fun callback userData => (hreturns callback userData).2)
  generalize hstack : s.stack t = stack at hshape
  cases hshape with
  | critical call =>
      exact .last hreturns hreach (by simp [hstack]) (.critical hstack) (criticalSection_mutex _ _)
  | traversing now i =>
      exact releases_traversing hreturns _ hreach hstack le_rfl
        (hcatch now i ⟨_, by rw [hstack]; exact List.mem_cons_self, rfl⟩)
  | callback now i program =>
      refine releases_callback hreturns hreach hstack
        (fun call hcall => (hquiet t call).2 now i program hstack call hcall)
        (hcatch now i ⟨_, by rw [hstack]; exact List.mem_cons_self, rfl⟩) ?_
      intro s' hreach' hstack' _ hcatch'
      exact releases_traversing hreturns _ hreach' hstack' le_rfl hcatch'
  | reentrant call now i program => exact absurd hstack ((hquiet t call).1 now i program)

/-- **No thread is stuck.**  With callbacks that return and do not lock, no interval below a
nanosecond or above 2^62 seconds in the chain or on its way into it, and no update at 2^62
seconds or later: from every reachable state, whatever the threads are in the middle of, every
call can return. -/
theorem timer_calls_can_return (hreturns : Returns behaviour) {s : System κ υ}
    (hreach : System.Reachable behaviour s) (hproductive : Productive s) (t : ThreadId) :
    ∃ s', Relation.ReflTransGen (Step behaviour) s s' ∧ s'.stack t = [] := by
  -- with the mutex free a thread is in client code, or gets it with its next step
  have hfree : ∀ s : System κ υ, System.Reachable behaviour s → Productive s →
      s.manager.mutex = none →
      ∃ s', Relation.ReflTransGen (Step behaviour) s s' ∧ s'.stack t = [] := by
    intro s hreach hproductive hfree
    have hshape := hreach.lockInv t
    rw [TimerManager.heldBy_of_free hfree] at hshape
    generalize hstack : s.stack t = stack at hshape
    cases hshape with
    | idle => exact ⟨s, .refl, hstack⟩
    | waiting call =>
        have hstep : Step behaviour s _ := .lock hstack hfree
        obtain ⟨s', hsteps, -, hidle, -⟩ := releases_of_held hreturns (.tail hreach hstep)
          (productive_set hreturns hreach (by simp [hstack]) hstep hproductive) rfl
        exact ⟨s', .head hstep hsteps, hidle⟩
  cases hmutex : s.manager.mutex with
  | none => exact hfree s hreach hproductive hmutex
  | some holder =>
      -- first the holder finishes
      obtain ⟨s₁, hsteps, hfree₁, -, -, hproductive₁⟩ :=
        releases_of_held hreturns hreach hproductive hmutex
      have hreach₁ : System.Reachable behaviour s₁ := hreach.trans hsteps
      obtain ⟨s', hsteps', hidle⟩ := hfree s₁ hreach₁ (hproductive₁ hproductive) hfree₁
      exact ⟨s', hsteps.trans hsteps', hidle⟩

/-- The thread that looks at the one-shot timer. -/
theorem timer_calls_can_return_one_shot :
    ∃ s', Relation.ReflTransGen (Step silent) oneShotUpdating s' ∧ s'.stack 0 = [] := by
  refine timer_calls_can_return silent_returns oneShotUpdating_reachable ⟨?_, ?_⟩ 0
  · intro e he
    rw [List.mem_singleton.mp he]
    exact ⟨by decide +kernel, by decide +kernel⟩
  · intro t frame hframe
    unfold oneShotUpdating at hframe
    by_cases ht : t = 0
    · subst ht
      rw [System.set_stack_self, List.mem_singleton] at hframe
      rw [hframe]
      rintro now ⟨⟩
      decide
    · rw [System.set_stack_of_ne _ _ ht] at hframe
      cases hframe

end Timer
