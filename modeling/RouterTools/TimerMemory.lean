/-
# The timer manager of `timer.c` in memory

The functions of `TimerManager` once more, on blocks: the manager, the entries, and the copy
of its name that each entry points to.  The functions take a NULL manager, and every
allocation may be refused; `timer_add` gives back what it has allocated on each of its
failing exits, and the clock that fails comes after both allocations.

A program creates a manager, uses it and frees it; the requests it makes do not say what the
allocator answers.
-/
import RouterTools.LinkedBlocks
import RouterTools.TimerSpec

namespace TimerMemory

open Blocks Timer

variable {P κ υ : Type} [DecidableEq P]

/-! ## The functions of the source -/

/-- `TimerEntry`, without the `next` pointer. -/
structure Entry (P κ υ : Type) where
  name : Option P
  nextRunTime : Timespec
  intervalSeconds : Double
  callback : Option κ
  userData : υ

/-- `TimerManager`. -/
structure Manager (P : Type) where
  head : Option P
  mutex : Option ThreadId
  size : ℤ

/-- What is allocated: the manager, its entries, and the copies `strdup` makes. -/
inductive Block (P κ υ : Type) where
  | manager (fields : Manager P)
  | entry (fields : Entry P κ υ) (next : Option P)
  | text (name : Name)

/-- `TimerEntry` in its block. -/
def entries : Layout P (Block P κ υ) (Entry P κ υ) where
  node fields next := .entry fields next
  asNode
    | .entry fields next => some (fields, next)
    | .manager _ => none
    | .text _ => none
  asNode_node _ _ := rfl

/-- The block of the manager, read as such. -/
def Block.asManager : Block P κ υ → Option (Manager P)
  | .manager fields => some fields
  | .entry _ _ => none
  | .text _ => none

/-- The block of a string, read as such. -/
def Block.asText : Block P κ υ → Option Name
  | .text name => some name
  | .manager _ => none
  | .entry _ _ => none

/-- The allocator, what fresh blocks happen to hold, the budget of the loops over the list
and that of the catch-up loop. -/
structure Machine (P κ υ : Type) where
  allocator : Allocator P (Block P κ υ)
  junkManager : Manager P
  junkEntry : Entry P κ υ
  junkNext : Option P
  listFuel : ℕ
  fuel : ℕ

/-- An assignment to a field of the manager. -/
def modifyManager (manager : Option P) (f : Manager P → Manager P) :
    Prog P (Block P κ υ) Unit := do
  let fields ← read Block.asManager manager
  write manager (.manager (f fields))

/-- `pthread_mutex_lock`, when it returns. -/
def lock (manager : Option P) (self : ThreadId) : Prog P (Block P κ υ) Unit :=
  modifyManager manager fun fields => { fields with mutex := some self }

/-- `pthread_mutex_unlock`. -/
def unlock (manager : Option P) : Prog P (Block P κ υ) Unit :=
  modifyManager manager fun fields => { fields with mutex := none }

/-- `current->name != NULL && strcmp(current->name, name) == 0`. -/
def hasName (name : Name) (current : Entry P κ υ) : Prog P (Block P κ υ) Bool := do
  if current.name.isNone then return false
  let text ← read Block.asText current.name
  return decide (text = name)

variable (M : Machine P κ υ)

/-- `timer_manager_create`, where `pthread_mutex_init` returns `rc`. -/
def timerManagerCreate (rc : ℤ) : Prog P (Block P κ υ) (Option P) := do
  let manager ← malloc M.allocator (.manager M.junkManager)
  if manager.isNone then return none
  modifyManager manager fun fields => { fields with head := none }
  modifyManager manager fun fields => { fields with size := 0 }
  if rc ≠ 0 then
    free manager
    return none
  -- the mutex is initialised, unlocked
  unlock manager
  return manager

/-- The loop of the two functions that search an entry by its name. -/
def search (manager : Option P) (name : Name) : Prog P (Block P κ υ) (Option P × Option P) := do
  let fields ← read Block.asManager manager
  walk entries (fun current => do return !(← hasName name current)) M.listFuel none fields.head

/-- `find_timer_entry_nolock`. -/
def findTimerEntryNolock (manager : Option P) (name : Name) :
    Prog P (Block P κ υ) (Option P) := do
  let (_, current) ← search M manager name
  return current

/-- `find_timer_entry_with_previous_nolock`: the entry before the one found, and the one
found. -/
def findTimerEntryWithPreviousNolock (manager : Option P) (name : Name) :
    Prog P (Block P κ υ) (Option P × Option P) := do
  let (prev, current) ← search M manager name
  if current.isNone then return (none, none)
  return (prev, current)

/-- What `timer_add` does once the entry and its name are allocated. -/
def linkEntry (manager newEntry : Option P) (intervalSeconds : Double) (callback : κ) (userData : υ)
    (clock : Option ClockTime) : Prog P (Block P κ υ) (Except TimerAddError Unit) :=
  match clock with
  | none => do
      let (fields, _) ← entries.get newEntry
      free fields.name
      free newEntry
      unlock manager
      return .error .clock
  | some now => do
      entries.modify newEntry fun fields => { fields with nextRunTime := now.1 }
      entries.modify newEntry fun fields =>
        { fields with nextRunTime := timespecAddDouble fields.nextRunTime intervalSeconds }
      entries.modify newEntry fun fields =>
        { fields with
          intervalSeconds := intervalSeconds
          callback := some callback
          userData := userData }
      let fields ← read Block.asManager manager
      entries.setNext newEntry fields.head
      modifyManager manager fun fields => { fields with head := newEntry }
      modifyManager manager fun fields => { fields with size := fields.size + 1 }
      unlock manager
      return .ok ()

/-- The critical section of `timer_add`. -/
def timerAddLocked (manager : Option P) (name : Name) (intervalSeconds : Double) (callback : κ)
    (userData : υ) (clock : Option ClockTime) :
    Prog P (Block P κ υ) (Except TimerAddError Unit) := do
  let found ← findTimerEntryNolock M manager name
  if found.isSome then
    unlock manager
    return .error .nameExists
  let newEntry ← malloc M.allocator (.entry M.junkEntry M.junkNext)
  if newEntry.isNone then
    unlock manager
    return .error .entryAllocation
  -- strdup
  let copy ← malloc M.allocator (.text name)
  entries.modify newEntry fun fields => { fields with name := copy }
  if copy.isNone then
    free newEntry
    unlock manager
    return .error .nameAllocation
  linkEntry manager newEntry intervalSeconds callback userData clock

/-- `timer_add`. -/
def timerAdd (self : ThreadId) (manager : Option P) (name : Option Name) (intervalSeconds : Double)
    (callback : Option κ) (userData : υ) (clock : Option ClockTime) :
    Prog P (Block P κ υ) (Except TimerAddError Unit) :=
  match manager, name, callback with
  | some manager, some name, some callback =>
      if intervalSeconds.NonPos then return .error .invalidParameters
      else do
        lock (some manager) self
        timerAddLocked M (some manager) name intervalSeconds callback userData clock
  | _, _, _ => return .error .invalidParameters

/-- The critical section of `timer_remove`. -/
def timerRemoveLocked (manager : Option P) (name : Name) : Prog P (Block P κ υ) Bool := do
  let (prevEntry, foundEntry) ← findTimerEntryWithPreviousNolock M manager name
  if foundEntry.isNone then
    unlock manager
    return false
  let (_, next) ← entries.get foundEntry
  relinkAt entries (fun head => modifyManager manager fun fields => { fields with head := head })
    prevEntry next
  modifyManager manager fun fields => { fields with size := fields.size - 1 }
  let (fields, _) ← entries.get foundEntry
  free fields.name
  free foundEntry
  unlock manager
  return true

/-- `timer_remove`. -/
def timerRemove (self : ThreadId) (manager : Option P) (name : Option Name) :
    Prog P (Block P κ υ) Bool :=
  match manager, name with
  | some manager, some name => do
      lock (some manager) self
      timerRemoveLocked M (some manager) name
  | _, _ => return false

/-- `while (timespec_compare(&current_time, &current->next_run_time) >= 0)
timespec_add_double(&current->next_run_time, current->interval_seconds);` -/
def catchUp (currentTime : Timespec) (current : Option P) : ℕ → Prog P (Block P κ υ) Unit
  | 0 => fail .outOfFuel
  | fuel + 1 => do
      let (fields, _) ← entries.get current
      if timespecCompare currentTime fields.nextRunTime ≥ 0 then
        entries.modify current fun fields =>
          { fields with
            nextRunTime := timespecAddDouble fields.nextRunTime fields.intervalSeconds }
        catchUp currentTime current fuel
      else return ()

/-- `if (current->callback != NULL) current->callback(current->user_data);`: the callback that
is invoked and what it is given. -/
def invokeCallback (current : Entry P κ υ) : List (κ × υ) :=
  match current.callback with
  | some callback => [(callback, current.userData)]
  | none => []

/-- What `timer_update` does at one entry. -/
def updateEntry (currentTime : Timespec) (current : Option P) :
    Prog P (Block P κ υ) (List (κ × υ)) := do
  let (fields, _) ← entries.get current
  if timespecCompare currentTime fields.nextRunTime ≥ 0 then
    catchUp currentTime current M.fuel
    return invokeCallback fields
  else return []

/-- The traversal of `timer_update`. -/
def updateEntries (currentTime : Timespec) :
    ℕ → Option P → Prog P (Block P κ υ) (List (κ × υ))
  | 0, _ => fail .outOfFuel
  | _ + 1, none => return []
  | fuel + 1, some current => do
      let fired ← updateEntry M currentTime (some current)
      let (_, next) ← entries.get (some current)
      let fired' ← updateEntries currentTime fuel next
      return fired ++ fired'

/-- `timer_update`, with the callbacks it invokes. -/
def timerUpdate (self : ThreadId) (manager : Option P) (clock : Option ClockTime) :
    Prog P (Block P κ υ) (List (κ × υ)) :=
  match manager, clock with
  | some manager, some currentTime => do
      lock (some manager) self
      let fields ← read Block.asManager (some manager)
      let fired ← updateEntries M currentTime.1 M.listFuel fields.head
      unlock (some manager)
      return fired
  | _, _ => return []

/-- `timer_get_size`. -/
def timerGetSize (self : ThreadId) (manager : Option P) : Prog P (Block P κ υ) ℤ :=
  match manager with
  | none => return -1
  | some manager => do
      lock (some manager) self
      let fields ← read Block.asManager (some manager)
      unlock (some manager)
      return fields.size

/-- What `timer_free` does to an entry before it frees it. -/
def releaseEntry (current : P) : Prog P (Block P κ υ) Unit := do
  let (fields, _) ← entries.get (some current)
  free fields.name

/-- `timer_free`. -/
def timerFree (self : ThreadId) (manager : Option P) : Prog P (Block P κ υ) Unit :=
  match manager with
  | none => return ()
  | some manager => do
      lock (some manager) self
      let fields ← read Block.asManager (some manager)
      disposeAll entries releaseEntry M.listFuel fields.head
      unlock (some manager)
      free (some manager)

/-! ## Programs -/

/-- A call of the public interface; the allocator is not part of it. -/
inductive Call (κ υ : Type) where
  | add (name : Option Name) (intervalSeconds : Double) (callback : Option κ) (userData : υ)
      (clock : Option ClockTime)
  | remove (name : Option Name)
  | update (clock : Option ClockTime)
  | getSize

/-- A call and the thread that makes it. -/
structure Request (κ υ : Type) where
  self : ThreadId
  call : Call κ υ

/-- What a call answers, and the callbacks that are invoked. -/
inductive Answer (κ υ : Type) where
  | added (result : Except TimerAddError Unit)
  | removed (result : Bool)
  | updated (fired : List (κ × υ))
  | size (n : ℤ)
  deriving DecidableEq

/-- A call on the manager at `manager`. -/
def callOf (manager : Option P) (req : Request κ υ) : Prog P (Block P κ υ) (Answer κ υ) :=
  match req.call with
  | .add name intervalSeconds callback userData clock => do
      let result ← timerAdd M req.self manager name intervalSeconds callback userData clock
      return .added result
  | .remove name => do
      let result ← timerRemove M req.self manager name
      return .removed result
  | .update clock => do
      let fired ← timerUpdate M req.self manager clock
      return .updated fired
  | .getSize => do
      let n ← timerGetSize req.self manager
      return .size n

/-- A program that creates a manager, uses it and frees it. -/
def program (rc : ℤ) (reqs : List (Request κ υ)) (self : ThreadId) :
    Prog P (Block P κ υ) (List (Answer κ υ)) := do
  let manager ← timerManagerCreate M rc
  let answers ← serve (callOf M manager) reqs
  timerFree M self manager
  return answers

end TimerMemory
