/-
# The mutex of the timer manager, with callbacks that call the library

Threads take the mutex one after another and `timer_update` invokes the callbacks in
the middle of its traversal, with the mutex held.  A callback is client code: it may
call the library on the same manager.  Each thread is a stack of frames, the
innermost first, so that a call from inside a callback is a frame on top of the
traversal it interrupts.

The mutex is not recursive: `pthread_mutex_lock` returns only when nobody holds it.
`SelfLock` is the state the thread must not reach: it holds the mutex and is about to
lock it again.  It is reached exactly from a callback that makes a locking call.
-/
import Mathlib.Logic.Relation
import RouterTools.TimerSpec

namespace Timer

variable {κ υ : Type*}

/-! ## The system -/

/-- The call gets past its argument checks (and the clock reading of `timer_update`)
and so reaches `pthread_mutex_lock`. -/
def Call.locks : Call κ υ → Bool
  | .add (some _) intervalSeconds (some _) _ _ => !decide intervalSeconds.NonPos
  | .add .. => false
  | .remove name => name.isSome
  | .update clock => clock.isSome
  | .getSize => true

/-- Where a thread is inside the library. -/
inductive Frame (κ υ : Type*) where
  /-- at `pthread_mutex_lock` -/
  | locking (call : Call κ υ)
  /-- behind it, in `timer_add`, `timer_remove` or `timer_get_size` -/
  | critical (call : Call κ υ)
  /-- in the loop of `timer_update`, at the entry at position `i` -/
  | traversing (now : ClockTime) (i : ℕ)
  /-- in the callback of that entry, with these calls left to make -/
  | callback (now : ClockTime) (i : ℕ) (program : List (Call κ υ))

/-- One manager and the threads that use it; an empty stack is client code. -/
structure System (κ υ : Type*) where
  manager : TimerManager κ υ
  stack : ThreadId → List (Frame κ υ)

/-- A created manager that no thread uses yet. -/
def System.init : System κ υ := ⟨⟨[], none, 0⟩, fun _ => []⟩

/-- The critical section of a call other than `timer_update`. -/
def criticalSection (manager : TimerManager κ υ) : Call κ υ → TimerManager κ υ
  | .add (some name) intervalSeconds (some callback) userData res =>
      (timerAddLocked manager name intervalSeconds callback userData res).1
  | .remove (some name) => (timerRemoveLocked manager name).1
  | _ => manager.unlock

/-- The frame a call enters once it has the mutex. -/
def Call.enter : Call κ υ → Frame κ υ
  | .update (some now) => .traversing now 0
  | call => .critical call

/-- The state with another manager and another stack for `t`. -/
def System.set (s : System κ υ) (manager : TimerManager κ υ) (t : ThreadId)
    (stack : List (Frame κ υ)) : System κ υ :=
  ⟨manager, Function.update s.stack t stack⟩

@[simp] theorem System.set_manager (s : System κ υ) (manager : TimerManager κ υ) (t : ThreadId)
    (stack : List (Frame κ υ)) : (s.set manager t stack).manager = manager := rfl

@[simp] theorem System.set_stack_self (s : System κ υ) (manager : TimerManager κ υ)
    (t : ThreadId) (stack : List (Frame κ υ)) : (s.set manager t stack).stack t = stack := by
  simp [System.set]

theorem System.set_stack_of_ne (s : System κ υ) (manager : TimerManager κ υ) {t t' : ThreadId}
    (h : t' ≠ t) (stack : List (Frame κ υ)) :
    (s.set manager t stack).stack t' = s.stack t' := by
  simp [System.set, Function.update_of_ne h]

/-- The thread holds the mutex. -/
def TimerManager.heldBy (manager : TimerManager κ υ) (t : ThreadId) : Bool :=
  decide (manager.mutex = some t)

theorem TimerManager.heldBy_of_free {manager : TimerManager κ υ} (h : manager.mutex = none)
    (t : ThreadId) : manager.heldBy t = false := by
  simp [TimerManager.heldBy, h]

/-- One step of one thread.  `behaviour` lists the sequences of calls a callback may
make when it is invoked with some user data. -/
inductive Step (behaviour : κ → υ → Set (List (Call κ υ))) : System κ υ → System κ υ → Prop
  | invoke {s t call} (hidle : s.stack t = []) (hlocks : call.locks = true) :
      Step behaviour s (s.set s.manager t [.locking call])
  | lock {s t call rest} (h : s.stack t = .locking call :: rest)
      (hfree : s.manager.mutex = none) :
      Step behaviour s (s.set (s.manager.lock t) t (call.enter :: rest))
  | critical {s t call rest} (h : s.stack t = .critical call :: rest) :
      Step behaviour s (s.set (criticalSection s.manager call) t rest)
  | skip {s t now i rest e} (h : s.stack t = .traversing now i :: rest)
      (he : s.manager.head[i]? = some e) (hdue : timespecCompare now.1 e.nextRunTime < 0) :
      Step behaviour s (s.set s.manager t (.traversing now (i + 1) :: rest))
  | fire {s t now i rest e callback program} (h : s.stack t = .traversing now i :: rest)
      (he : s.manager.head[i]? = some e) (hdue : timespecCompare now.1 e.nextRunTime ≥ 0)
      (hcb : e.callback = some callback) (hprogram : program ∈ behaviour callback e.userData) :
      Step behaviour s (s.set s.manager t (.callback now i program :: rest))
  | fireNull {s t now i rest e} (h : s.stack t = .traversing now i :: rest)
      (he : s.manager.head[i]? = some e) (hdue : timespecCompare now.1 e.nextRunTime ≥ 0)
      (hcb : e.callback = none) :
      Step behaviour s (s.set s.manager t (.callback now i [] :: rest))
  | refused {s t now i call program rest}
      (h : s.stack t = .callback now i (call :: program) :: rest) (hlocks : call.locks = false) :
      Step behaviour s (s.set s.manager t (.callback now i program :: rest))
  | reenter {s t now i call program rest}
      (h : s.stack t = .callback now i (call :: program) :: rest) (hlocks : call.locks = true) :
      Step behaviour s (s.set s.manager t (.locking call :: .callback now i program :: rest))
  | advance {s t now i rest e fuel next} (h : s.stack t = .callback now i [] :: rest)
      (he : s.manager.head[i]? = some e)
      (hloop : catchUp fuel now.1 e.intervalSeconds e.nextRunTime = some next) :
      Step behaviour s (s.set
        { s.manager with head := s.manager.head.set i { e with nextRunTime := next } }
        t (.traversing now (i + 1) :: rest))
  | finish {s t now i rest} (h : s.stack t = .traversing now i :: rest)
      (hend : s.manager.head[i]? = none) :
      Step behaviour s (s.set s.manager.unlock t rest)

/-- The states the threads can bring a created manager to. -/
def System.Reachable (behaviour : κ → υ → Set (List (Call κ υ))) : System κ υ → Prop :=
  Relation.ReflTransGen (Step behaviour) System.init

/-- The thread holds the mutex and is about to lock it. -/
def SelfLock (s : System κ υ) (t : ThreadId) : Prop :=
  s.manager.mutex = some t ∧ ∃ call rest, s.stack t = .locking call :: rest

/-! ## Critical sections -/

/-- **Every critical section releases the mutex**, whichever exit it takes. -/
theorem criticalSection_mutex (m : TimerManager κ υ) (call : Call κ υ) :
    (criticalSection m call).mutex = none := by
  rcases call with ⟨_ | name, s, _ | callback, userData, res⟩ | ⟨_ | name⟩ | clock | _
  all_goals try rfl
  · exact timerAddLocked_mutex m name s callback userData res
  · exact timerRemoveLocked_mutex m name

/-! ## The invariant -/

/-- The stacks a thread can have, by whether it holds the mutex. -/
inductive Shape : Bool → List (Frame κ υ) → Prop
  | idle : Shape false []
  | waiting (call) : Shape false [.locking call]
  | critical (call) : Shape true [.critical call]
  | traversing (now i) : Shape true [.traversing now i]
  | callback (now i program) : Shape true [.callback now i program]
  | reentrant (call now i program) : Shape true [.locking call, .callback now i program]

/-- Exactly the holder of the mutex is inside a critical section. -/
def LockInv (s : System κ υ) : Prop :=
  ∀ t, Shape (s.manager.heldBy t) (s.stack t)

/-- A frame behind the lock is alone on its stack, and its thread holds the mutex. -/
theorem Shape.inside {b : Bool} {f : Frame κ υ} {rest : List (Frame κ υ)}
    (h : Shape b (f :: rest)) (hf : ∀ call, f ≠ .locking call) : b = true ∧ rest = [] := by
  cases h with
  | waiting call => exact absurd rfl (hf call)
  | reentrant call => exact absurd rfl (hf call)
  | _ => exact ⟨rfl, rfl⟩

theorem Shape.enter (call : Call κ υ) : Shape true [call.enter] := by
  unfold Call.enter
  split
  · exact .traversing _ _
  · exact .critical _

/-- A thread inside holds the mutex, with one frame on its stack. -/
theorem LockInv.inside {s : System κ υ} (hs : LockInv s) {t : ThreadId} {f : Frame κ υ}
    {rest : List (Frame κ υ)} (h : s.stack t = f :: rest) (hf : ∀ call, f ≠ .locking call) :
    s.manager.mutex = some t ∧ rest = [] := by
  have hshape := hs t
  rw [h] at hshape
  obtain ⟨hb, hrest⟩ := hshape.inside hf
  exact ⟨of_decide_eq_true hb, hrest⟩

/-- A thread that gets the mutex was not inside. -/
theorem LockInv.waiting {s : System κ υ} (hs : LockInv s) {t : ThreadId} {call : Call κ υ}
    {rest : List (Frame κ υ)} (h : s.stack t = .locking call :: rest)
    (hfree : s.manager.mutex = none) : rest = [] := by
  have hshape := hs t
  rw [h, TimerManager.heldBy_of_free hfree] at hshape
  cases hshape
  rfl

/-- Only the stepping thread's stack, and only the mutex of the manager, matter. -/
theorem LockInv.set {s : System κ υ} (h : LockInv s) {manager : TimerManager κ υ} {t : ThreadId}
    {stack : List (Frame κ υ)} (ht : Shape (manager.heldBy t) stack)
    (hother : ∀ t', t' ≠ t → manager.heldBy t' = s.manager.heldBy t') :
    LockInv (s.set manager t stack) := by
  intro t'
  by_cases heq : t' = t
  · subst heq
    rw [System.set_stack_self, System.set_manager]
    exact ht
  · rw [System.set_stack_of_ne s manager heq, System.set_manager, hother t' heq]
    exact h t'

/-- **One step keeps the invariant.** -/
theorem lockInv_step {behaviour : κ → υ → Set (List (Call κ υ))} {s s' : System κ υ}
    (hs : LockInv s) (hstep : Step behaviour s s') : LockInv s' := by
  -- giving the mutex back changes nothing for the threads that did not hold it
  have hothers : ∀ {t : ThreadId} {manager : TimerManager κ υ}, s.manager.mutex = some t →
      manager.mutex = none → ∀ t', t' ≠ t → manager.heldBy t' = s.manager.heldBy t' := by
    intro t manager hmutex hnone t' hne
    rw [TimerManager.heldBy, TimerManager.heldBy, hmutex, hnone]
    simpa using Ne.symm hne
  cases hstep with
  | @invoke t call hidle hlocks =>
      refine hs.set ?_ fun _ _ => rfl
      have hshape := hs t
      rw [hidle] at hshape
      generalize s.manager.heldBy t = b at hshape ⊢
      cases hshape
      exact .waiting call
  | @lock t call rest h hfree =>
      obtain rfl := hs.waiting h hfree
      refine hs.set ?_ fun t' hne => ?_
      · simpa [TimerManager.heldBy, TimerManager.lock] using Shape.enter call
      · rw [TimerManager.heldBy_of_free hfree]
        simpa [TimerManager.heldBy, TimerManager.lock] using Ne.symm hne
  | @critical t call rest h =>
      obtain ⟨hmutex, rfl⟩ := hs.inside h (by simp)
      have hnone := criticalSection_mutex s.manager call
      exact hs.set (by rw [TimerManager.heldBy, hnone]; exact .idle) (hothers hmutex hnone)
  | @skip t now i rest e h he hdue =>
      obtain ⟨hmutex, rfl⟩ := hs.inside h (by simp)
      exact hs.set (by simpa [TimerManager.heldBy, hmutex] using Shape.traversing now (i + 1))
        fun _ _ => rfl
  | @fire t now i rest e cb program h he hdue hcb hprogram =>
      obtain ⟨hmutex, rfl⟩ := hs.inside h (by simp)
      exact hs.set (by simpa [TimerManager.heldBy, hmutex] using Shape.callback now i program)
        fun _ _ => rfl
  | @fireNull t now i rest e h he hdue hcb =>
      obtain ⟨hmutex, rfl⟩ := hs.inside h (by simp)
      exact hs.set (by simpa [TimerManager.heldBy, hmutex] using Shape.callback now i [])
        fun _ _ => rfl
  | @refused t now i call program rest h hlocks =>
      obtain ⟨hmutex, rfl⟩ := hs.inside h (by simp)
      exact hs.set (by simpa [TimerManager.heldBy, hmutex] using Shape.callback now i program)
        fun _ _ => rfl
  | @reenter t now i call program rest h hlocks =>
      obtain ⟨hmutex, rfl⟩ := hs.inside h (by simp)
      exact hs.set (by simpa [TimerManager.heldBy, hmutex] using Shape.reentrant call now i program)
       
        fun _ _ => rfl
  | @advance t now i rest e fuel next h he hloop =>
      obtain ⟨hmutex, rfl⟩ := hs.inside h (by simp)
      exact hs.set (by simpa [TimerManager.heldBy, hmutex] using Shape.traversing now (i + 1))
        fun _ _ => rfl
  | @finish t now i rest h hend =>
      obtain ⟨hmutex, rfl⟩ := hs.inside h (by simp)
      exact hs.set .idle (hothers hmutex rfl)

/-- **The invariant holds in every reachable state.** -/
theorem System.Reachable.lockInv {behaviour : κ → υ → Set (List (Call κ υ))} {s : System κ υ}
    (hs : System.Reachable behaviour s) : LockInv s := by
  induction hs with
  | refl => exact fun _ => .idle
  | tail _ hstep ih => exact lockInv_step ih hstep

/-! ## Self-deadlock -/

/-- A thread that is about to lock its own mutex was called from a callback. -/
theorem SelfLock.stack_eq {s : System κ υ} (hs : LockInv s) {t : ThreadId} (h : SelfLock s t) :
    ∃ call now i program, s.stack t = [.locking call, .callback now i program] := by
  obtain ⟨hmutex, call, rest, hstack⟩ := h
  have hshape := hs t
  rw [hstack, TimerManager.heldBy, hmutex, decide_eq_true rfl] at hshape
  cases hshape with
  | reentrant call now i program => exact ⟨call, now, i, program, hstack⟩

/-- A self-deadlocked thread stays deadlocked, whatever the other threads do. -/
theorem SelfLock.step {behaviour : κ → υ → Set (List (Call κ υ))} {s s' : System κ υ}
    (hs : LockInv s) {t : ThreadId} (h : SelfLock s t) (hstep : Step behaviour s s') :
    SelfLock s' t := by
  obtain ⟨call, now, i, program, hstack⟩ := h.stack_eq hs
  obtain ⟨hmutex, -⟩ := h
  -- the thread itself cannot move, and nobody else holds the mutex
  have hother : ∀ {t' : ThreadId} {manager : TimerManager κ υ} {stack}, t' ≠ t →
      manager.mutex = some t → SelfLock (s.set manager t' stack) t := by
    intro t' manager stack hne hm
    refine ⟨hm, call, [.callback now i program], ?_⟩
    rw [System.set_stack_of_ne s manager (Ne.symm hne), hstack]
  have hne_of_top : ∀ {t' : ThreadId} {f : Frame κ υ} {rest}, s.stack t' = f :: rest →
      (∀ call, f ≠ .locking call) → t' ≠ t := by
    rintro t' f rest h' hf rfl
    rw [hstack] at h'
    cases h'
    exact hf call rfl
  have hnot_inside : ∀ {t' : ThreadId} {f : Frame κ υ} {rest}, s.stack t' = f :: rest →
      (∀ call, f ≠ .locking call) → False := by
    intro t' f rest h' hf
    have hown := (hs.inside h' hf).1
    rw [hmutex] at hown
    exact hne_of_top h' hf (Option.some.inj hown).symm
  cases hstep with
  | @invoke t' call' hidle _ =>
      refine hother ?_ hmutex
      rintro rfl
      rw [hstack] at hidle
      cases hidle
  | lock _ hfree => rw [hmutex] at hfree; cases hfree
  | critical h' => exact (hnot_inside h' (by simp)).elim
  | skip h' => exact (hnot_inside h' (by simp)).elim
  | fire h' => exact (hnot_inside h' (by simp)).elim
  | fireNull h' => exact (hnot_inside h' (by simp)).elim
  | refused h' => exact (hnot_inside h' (by simp)).elim
  | reenter h' => exact (hnot_inside h' (by simp)).elim
  | advance h' => exact (hnot_inside h' (by simp)).elim
  | finish h' => exact (hnot_inside h' (by simp)).elim

/-- No callback frame has a locking call left to make, and none waits on the mutex. -/
def Quiet (s : System κ υ) : Prop :=
  ∀ t call, (∀ now i program, s.stack t ≠ [.locking call, .callback now i program]) ∧
    ∀ now i program, s.stack t = [.callback now i program] → ∀ c ∈ program, c.locks = false

/-- Without callbacks that make locking calls, every reachable state is quiet. -/
theorem System.Reachable.quiet {behaviour : κ → υ → Set (List (Call κ υ))}
    (hquiet : ∀ callback userData, ∀ program ∈ behaviour callback userData,
      ∀ call ∈ program, call.locks = false) {s : System κ υ}
    (hs : System.Reachable behaviour s) : Quiet s := by
  induction hs with
  | refl => exact fun _ _ => ⟨by simp [System.init], by simp [System.init]⟩
  | @tail s s' hs hstep ih =>
      have hinv : LockInv s := System.Reachable.lockInv hs
      have hset : ∀ {manager : TimerManager κ υ} {t : ThreadId} {stack : List (Frame κ υ)},
          (∀ call now i program, stack ≠ [.locking call, .callback now i program]) →
          (∀ now i program, stack = [.callback now i program] →
            ∀ c ∈ program, c.locks = false) → Quiet (s.set manager t stack) := by
        intro manager t stack h1 h2 t' call
        by_cases heq : t' = t
        · subst heq
          rw [System.set_stack_self]
          exact ⟨h1 call, h2⟩
        · rw [System.set_stack_of_ne s manager heq]
          exact ih t' call
      cases hstep with
      | invoke => exact hset (by simp) (by simp)
      | @lock t call rest h hfree =>
          obtain rfl := hinv.waiting h hfree
          refine hset (by simp) fun now i program heq => ?_
          unfold Call.enter at heq
          split at heq <;> cases heq
      | critical h =>
          obtain rfl := (hinv.inside h (by simp)).2
          exact hset (by simp) (by simp)
      | skip h =>
          obtain rfl := (hinv.inside h (by simp)).2
          exact hset (by simp) (by simp)
      | fire h he hdue hcb hprogram =>
          obtain rfl := (hinv.inside h (by simp)).2
          refine hset (by simp) fun now i program heq => ?_
          cases heq
          exact hquiet _ _ _ hprogram
      | fireNull h =>
          obtain rfl := (hinv.inside h (by simp)).2
          refine hset (by simp) fun now i program heq => ?_
          cases heq
          simp
      | @refused t now i call program rest h hlocks =>
          obtain rfl := (hinv.inside h (by simp)).2
          refine hset (by simp) fun now' i' program' heq => ?_
          cases heq
          exact fun c hc => (ih t call).2 now i _ h c (List.mem_cons_of_mem call hc)
      | @reenter t now i call program rest h hlocks =>
          -- the call that is about to be made does not lock
          obtain rfl := (hinv.inside h (by simp)).2
          have := (ih t call).2 now i _ h call List.mem_cons_self
          rw [hlocks] at this
          cases this
      | advance h =>
          obtain rfl := (hinv.inside h (by simp)).2
          exact hset (by simp) (by simp)
      | finish h =>
          obtain rfl := (hinv.inside h (by simp)).2
          exact hset (by simp) (by simp)

/-- The behaviour of a one-shot timer: its callback removes the timer that the user data
names. -/
def removeSelf (_ : Unit) (userData : Name) : Set (List (Call Unit Name)) :=
  {[.remove (some userData)]}

/-- The one-shot timer `a`, added with an interval of one second at 0 s. -/
def oneShotTimer : TimerManager Unit Name :=
  ⟨[⟨[97], ⟨1, 0⟩, .finite 1, some (), [97]⟩], none, 1⟩

/-- Thread 0 updates at 2 s and is in the callback, which has not called yet. -/
def oneShotFiring : System Unit Name :=
  System.set System.init (oneShotTimer.lock 0) 0
    [.callback ⟨⟨2, 0⟩, by decide⟩ 0 [.remove (some [97])]]

theorem oneShotFiring_reachable : System.Reachable removeSelf oneShotFiring := by
  let add : Call Unit Name :=
    .add (some [97]) (.finite 1) (some ()) [97] ⟨true, true, some ⟨⟨0, 0⟩, by decide⟩⟩
  let now : ClockTime := ⟨⟨2, 0⟩, by decide⟩
  let empty : TimerManager Unit Name := ⟨[], none, 0⟩
  let s₁ := System.init.set empty 0 [.locking add]
  let s₂ := s₁.set (empty.lock 0) 0 [.critical add]
  let s₃ := s₂.set oneShotTimer 0 []
  let s₄ := s₃.set oneShotTimer 0 [.locking (.update (some now))]
  let s₅ := s₄.set (oneShotTimer.lock 0) 0 [.traversing now 0]
  let s₆ := s₅.set (oneShotTimer.lock 0) 0 [.callback now 0 [.remove (some [97])]]
  -- thread 0 adds the timer, then updates, and the timer fires
  have hadd : criticalSection (empty.lock 0) add = oneShotTimer := by decide +kernel
  have h₁ : Step removeSelf System.init s₁ := .invoke rfl (by decide +kernel)
  have h₂ : Step removeSelf s₁ s₂ := .lock (System.set_stack_self _ _ _ _) rfl
  have h₃ : Step removeSelf s₂ (s₂.set (criticalSection (empty.lock 0) add) 0 []) :=
    .critical (System.set_stack_self _ _ _ _)
  rw [hadd] at h₃
  have h₄ : Step removeSelf s₃ s₄ := .invoke (System.set_stack_self _ _ _ _) rfl
  have h₅ : Step removeSelf s₄ s₅ := .lock (System.set_stack_self _ _ _ _) rfl
  have h₆ : Step removeSelf s₅ s₆ :=
    .fire (System.set_stack_self _ _ _ _) rfl (by decide) rfl rfl
  have heq : s₆ = oneShotFiring := by
    simp only [s₆, s₅, s₄, s₃, s₂, s₁, System.set, Function.update_idem]
    rfl
  exact heq ▸ .tail (.tail (.tail (.tail (.tail (.tail .refl h₁) h₂) h₃) h₄) h₅) h₆

end Timer
