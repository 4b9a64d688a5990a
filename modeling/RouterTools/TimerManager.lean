/-
# The timer manager of `timer.c`

The linked list of timers, its size counter and its mutex, with `timer_add`,
`timer_remove`, `timer_update` and `timer_get_size`.  The list is the chain of
entries that starts at `head`; a pointer into it is the position of the entry.

Every public function is split where it takes the mutex: the checks before the
lock, and the critical section, which is what runs between `pthread_mutex_lock`
and `pthread_mutex_unlock` and unlocks on each of its exits.  Allocations and
clock readings come from outside and are arguments.

A callback is invoked with the mutex held and does not change the manager here;
callbacks that call the library are the subject of `TimerLock.lean`.
-/
import Mathlib.Data.List.Basic
import RouterTools.Loop
import RouterTools.Timespec

namespace Timer

/-- The bytes of a C string before the terminating NUL. -/
abbrev Name := List UInt8

/-- A thread of the program. -/
abbrev ThreadId := ℕ

/-- `TimerEntry`, without the `next` pointer.  `κ` are the callback functions, `υ`
the `user_data` pointers; a callback pointer may be NULL. -/
structure TimerEntry (κ υ : Type*) where
  name : Name
  nextRunTime : Timespec
  intervalSeconds : Double
  callback : Option κ
  userData : υ
  deriving DecidableEq, Repr

/-- `TimerManager`: the chain of entries from `head`, the thread that holds the
mutex, and `size`. -/
structure TimerManager (κ υ : Type*) where
  head : List (TimerEntry κ υ)
  mutex : Option ThreadId
  size : ℤ
  deriving DecidableEq, Repr

/-- A callback that was invoked, with the entry it was invoked for and the
`next_run_time` that was due. -/
structure Invocation (κ υ : Type*) where
  name : Name
  callback : κ
  userData : υ
  due : Timespec
  deriving DecidableEq, Repr

/-- The failing exits of `timer_add`. -/
inductive TimerAddError where
  | invalidParameters
  | nameExists
  | entryAllocation
  | nameAllocation
  | clock
  deriving DecidableEq, Repr

/-- What `timer_add` is given by the system: whether its two allocations succeed
and what the clock reads. -/
structure AddResources where
  mallocEntry : Bool
  strdupName : Bool
  clock : Option ClockTime

variable {κ υ : Type*}

/-- `timer_manager_create`, given whether `malloc` succeeds and the code
`pthread_mutex_init` returns; `none` is NULL. -/
def timerManagerCreate (mallocOk : Bool) (rc : ℤ) : Option (TimerManager κ υ) :=
  if mallocOk = false then none
  else if rc ≠ 0 then none
  else some { head := [], mutex := none, size := 0 }

/-- `pthread_mutex_lock`, when it returns. -/
def TimerManager.lock (manager : TimerManager κ υ) (self : ThreadId) : TimerManager κ υ :=
  { manager with mutex := some self }

/-- `pthread_mutex_unlock`. -/
def TimerManager.unlock (manager : TimerManager κ υ) : TimerManager κ υ :=
  { manager with mutex := none }

/-! ## Searching -/

/-- `find_timer_entry_nolock`. -/
def findTimerEntryNolock (name : Name) : List (TimerEntry κ υ) → Option (TimerEntry κ υ)
  | [] => none
  | current :: next =>
      if current.name = name then some current else findTimerEntryNolock name next

/-- The loop of `find_timer_entry_with_previous_nolock`, at the position `i` with
`prev` behind it. -/
def findWithPreviousLoop (name : Name) :
    List (TimerEntry κ υ) → ℕ → Option ℕ → Option ℕ × Option ℕ
  | [], _, _ => (none, none)
  | current :: next, i, prev =>
      if current.name = name then (prev, some i)
      else findWithPreviousLoop name next (i + 1) (some i)

/-- `find_timer_entry_with_previous_nolock`: the positions of the entry before the
one found and of the one found.  The first is NULL both when nothing is found and
when the head is. -/
def findTimerEntryWithPreviousNolock (entries : List (TimerEntry κ υ)) (name : Name) :
    Option ℕ × Option ℕ :=
  findWithPreviousLoop name entries 0 none

/-! ## `timer_add` -/

/-- The critical section of `timer_add`. -/
def timerAddLocked (manager : TimerManager κ υ) (name : Name) (intervalSeconds : Double)
    (callback : κ) (userData : υ) (res : AddResources) :
    TimerManager κ υ × Except TimerAddError Unit :=
  if (findTimerEntryNolock name manager.head).isSome then (manager.unlock, .error .nameExists)
  else if res.mallocEntry = false then (manager.unlock, .error .entryAllocation)
  else if res.strdupName = false then (manager.unlock, .error .nameAllocation)
  else
    match res.clock with
    | none => (manager.unlock, .error .clock)
    | some now =>
        let newEntry : TimerEntry κ υ :=
          { name := name
            nextRunTime := timespecAddDouble now.1 intervalSeconds
            intervalSeconds := intervalSeconds
            callback := some callback
            userData := userData }
        ({ manager with head := newEntry :: manager.head, size := manager.size + 1 }.unlock,
          .ok ())

/-- `timer_add`.  The returned `bool` is `true` for `.ok`. -/
def timerAdd (self : ThreadId) (manager : TimerManager κ υ) (name : Option Name)
    (intervalSeconds : Double) (callback : Option κ) (userData : υ) (res : AddResources) :
    TimerManager κ υ × Except TimerAddError Unit :=
  match name, callback with
  | some name, some callback =>
      if intervalSeconds.NonPos then (manager, .error .invalidParameters)
      else timerAddLocked (manager.lock self) name intervalSeconds callback userData res
  | _, _ => (manager, .error .invalidParameters)

/-! ## `timer_remove` -/

/-- The critical section of `timer_remove`.  `found->next` is the chain behind the
found entry; it becomes the new head, or is linked behind the previous entry. -/
def timerRemoveLocked (manager : TimerManager κ υ) (name : Name) : TimerManager κ υ × Bool :=
  match findTimerEntryWithPreviousNolock manager.head name with
  | (_, none) => (manager.unlock, false)
  | (none, some found) =>
      ({ manager with head := manager.head.drop (found + 1), size := manager.size - 1 }.unlock,
        true)
  | (some prev, some found) =>
      ({ manager with
          head := manager.head.take (prev + 1) ++ manager.head.drop (found + 1)
          size := manager.size - 1 }.unlock, true)

/-- `timer_remove`. -/
def timerRemove (self : ThreadId) (manager : TimerManager κ υ) (name : Option Name) :
    TimerManager κ υ × Bool :=
  match name with
  | none => (manager, false)
  | some name => timerRemoveLocked (manager.lock self) name

/-! ## `timer_update` -/

/-- `while (timespec_compare(&current_time, &next_run_time) >= 0)
timespec_add_double(&next_run_time, interval_seconds);` -/
def catchUp (fuel : ℕ) (currentTime : Timespec) (intervalSeconds : Double) (nextRunTime : Timespec) :
    Option Timespec :=
  Loop.whileLoop (fun t => decide (timespecCompare currentTime t ≥ 0))
    (fun t => timespecAddDouble t intervalSeconds) fuel nextRunTime

/-- `if (current->callback != NULL) current->callback(current->user_data);` -/
def invokeCallback (current : TimerEntry κ υ) : List (Invocation κ υ) :=
  match current.callback with
  | some callback => [⟨current.name, callback, current.userData, current.nextRunTime⟩]
  | none => []

/-- What `timer_update` does at one entry. -/
def updateEntry (fuel : ℕ) (currentTime : Timespec) (current : TimerEntry κ υ) :
    Option (TimerEntry κ υ × List (Invocation κ υ)) :=
  if timespecCompare currentTime current.nextRunTime ≥ 0 then
    match catchUp fuel currentTime current.intervalSeconds current.nextRunTime with
    | none => none
    | some t => some ({ current with nextRunTime := t }, invokeCallback current)
  else some (current, [])

/-- The traversal of `timer_update`. -/
def updateEntries (fuel : ℕ) (currentTime : Timespec) :
    List (TimerEntry κ υ) → Option (List (TimerEntry κ υ) × List (Invocation κ υ))
  | [] => some ([], [])
  | current :: next =>
      match updateEntry fuel currentTime current with
      | none => none
      | some (current', fired) =>
          match updateEntries fuel currentTime next with
          | none => none
          | some (next', fired') => some (current' :: next', fired ++ fired')

/-- `timer_update`, with the invocations it makes in order.  `none` says that a
catch-up loop is still running after `fuel` tests of its condition. -/
def timerUpdate (fuel : ℕ) (self : ThreadId) (manager : TimerManager κ υ)
    (clock : Option ClockTime) : Option (TimerManager κ υ × List (Invocation κ υ)) :=
  match clock with
  | none => some (manager, [])
  | some currentTime =>
      match updateEntries fuel currentTime.1 (manager.lock self).head with
      | none => none
      | some (head, fired) => some ({ manager.lock self with head := head }.unlock, fired)

/-! ## `timer_get_size` -/

/-- `timer_get_size`. -/
def timerGetSize (self : ThreadId) (manager : TimerManager κ υ) : TimerManager κ υ × ℤ :=
  ((manager.lock self).unlock, (manager.lock self).size)

/-! ## Sequences of calls -/

/-- A call of the public interface, with what the system gives it. -/
inductive Call (κ υ : Type*) where
  | add (name : Option Name) (intervalSeconds : Double) (callback : Option κ) (userData : υ)
      (res : AddResources)
  | remove (name : Option Name)
  | update (clock : Option ClockTime)
  | getSize

/-- What a call answers. -/
inductive Answer (κ υ : Type*) where
  | added (result : Except TimerAddError Unit)
  | removed (result : Bool)
  | updated (fired : List (Invocation κ υ))
  | size (n : ℤ)
  deriving DecidableEq

/-- A call and the thread that makes it. -/
structure Request (κ υ : Type*) where
  self : ThreadId
  call : Call κ υ

/-- One call, executed with the mutex free. -/
def step (fuel : ℕ) (manager : TimerManager κ υ) (req : Request κ υ) :
    Option (TimerManager κ υ × Answer κ υ) :=
  match req.call with
  | .add name intervalSeconds callback userData res =>
      let r := timerAdd req.self manager name intervalSeconds callback userData res
      some (r.1, .added r.2)
  | .remove name =>
      let r := timerRemove req.self manager name
      some (r.1, .removed r.2)
  | .update clock =>
      match timerUpdate fuel req.self manager clock with
      | none => none
      | some (manager', fired) => some (manager', .updated fired)
  | .getSize =>
      let r := timerGetSize req.self manager
      some (r.1, .size r.2)

end Timer
