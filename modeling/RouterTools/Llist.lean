/-
# The generic linked list of `link_list.c`

An `llist` is a pointer to the head pointer; what it stands for is the chain of nodes
that starts at `*list`, and a node is its data pointer, which may be NULL.  The empty
list has two forms: the single node with NULL data that `llist_create(NULL)` makes,
and a NULL head (`[]`), which `llist_pop` leaves when it takes the last node.

The functions refine a sequence of data (`contents`) exactly as long as the head is
not NULL; `llist_refines_sequence_iff` says so for whole runs.
-/
import Mathlib.Data.Int.Basic
import Mathlib.Data.List.Induction
import Mathlib.Data.List.ReduceOption
import Mathlib.Tactic.SplitIfs
import RouterTools.Runs

namespace Llist

variable {α : Type*}

/-! ## The functions of the source -/

/-- The chain of nodes from `*list`; a node is its `data` pointer. -/
abbrev Chain (α : Type*) := List (Option α)

/-- What stops the program. -/
inductive Fault where
  | nullDereference
  deriving DecidableEq, Repr

/-- `llist_create`. -/
def llistCreate (newData : Option α) : Chain α := [newData]

/-- The search loop of `llist_add_inorder`, with the new node linked in where it
stops. -/
def insertLoop (comp : Option α → Option α → ℤ) (data : Option α) : Chain α → Chain α
  | [] => [data]
  | none :: next => data :: none :: next
  | some d :: next =>
      if comp (some d) data < 0 then some d :: insertLoop comp data next
      else data :: some d :: next

/-- `llist_add_inorder`.  A NULL head is refused with 0, after the message
`llist_add_inorder: list is null`. -/
def llistAddInorder (data : Option α) (list : Chain α) (comp : Option α → Option α → ℤ) :
    Except Fault (Chain α × ℤ) :=
  match list with
  | [] => .ok ([], 0)
  | none :: next => .ok (data :: next, 1)
  | some d :: next => .ok (insertLoop comp data (some d :: next), 1)

/-- `llist_push`.  For a NULL head the same message is printed, and the function goes on
to read `head->data`. -/
def llistPush (list : Chain α) (data : Option α) : Except Fault (Chain α) :=
  match list with
  | [] => .error .nullDereference
  | none :: next => .ok (data :: next)
  | some d :: next => .ok (data :: some d :: next)

/-- `llist_pop`. -/
def llistPop (list : Chain α) : Except Fault (Chain α × Option α) :=
  match list with
  | [] => .error .nullDereference
  | none :: next => .ok (none :: next, none)
  | some d :: next => .ok (next, some d)

/-- A call with non-NULL data. -/
inductive Call (α : Type*) where
  | push (data : α)
  | pop
  | addInorder (data : α) (comp : Option α → Option α → ℤ)

/-- What a call returns. -/
inductive Answer (α : Type*) where
  | pushed
  | popped (data : Option α)
  | added (result : ℤ)
  deriving DecidableEq

/-- One call on a list. -/
def exec (list : Chain α) : Call α → Except Fault (Chain α × Answer α)
  | .push data => (llistPush list (some data)).map fun list' => (list', .pushed)
  | .pop => (llistPop list).map fun r => (r.1, .popped r.2)
  | .addInorder data comp =>
      (llistAddInorder (some data) list comp).map fun r => (r.1, .added r.2)

/-- One call of a run; a fault ends the run. -/
def step (list : Chain α) (call : Call α) : Option (Chain α × Answer α) :=
  (exec list call).toOption

/-! ## The sequence -/

/-- The sequence of data a chain stands for. -/
def contents (list : Chain α) : List α := list.reduceOption

/-- What a call does to a sequence. -/
def SeqSpec (xs : List α) (call : Call α) (xs' : List α) (answer : Answer α) : Prop :=
  match call with
  | .push data => answer = .pushed ∧ xs' = data :: xs
  | .pop => answer = .popped xs.head? ∧ xs' = xs.tail
  | .addInorder data _ => answer = .added 1 ∧ ∃ l r, xs = l ++ r ∧ xs' = l ++ data :: r

/-- The call does not fault and does to the contents what it does to a sequence. -/
def MeetsSpec (list : Chain α) (call : Call α) : Prop :=
  ∃ list' answer, exec list call = .ok (list', answer) ∧
    SeqSpec (contents list) call (contents list') answer

/-- The chains that occur: a sentinel, or nodes with data. -/
def WellFormed (list : Chain α) : Prop := list = [none] ∨ ∃ xs : List α, list = xs.map some

theorem wellFormed_create (d : Option α) : WellFormed (llistCreate d) := by
  cases d with
  | none => exact .inl rfl
  | some d => exact .inr ⟨[d], rfl⟩

@[simp] theorem contents_map_some (xs : List α) : contents (xs.map some) = xs := by
  induction xs with
  | nil => rfl
  | cons x xs ih => rw [List.map_cons, contents, List.reduceOption_cons_of_some, ← contents, ih]

theorem contents_create (d : Option α) : contents (llistCreate d) = d.toList := by
  cases d <;> rfl

/-- The loop inserts into nodes with data, somewhere. -/
theorem insertLoop_map_some (comp : Option α → Option α → ℤ) (data : α) (xs : List α) :
    ∃ l r, xs = l ++ r ∧ insertLoop comp (some data) (xs.map some) = (l ++ data :: r).map some := by
  induction xs with
  | nil => exact ⟨[], [], rfl, rfl⟩
  | cons x xs ih =>
      rw [List.map_cons, insertLoop]
      split_ifs with hlt
      · obtain ⟨l, r, rfl, heq⟩ := ih
        exact ⟨x :: l, r, rfl, by rw [heq]; rfl⟩
      · exact ⟨[], x :: xs, rfl, rfl⟩

/-- **A call on a list with a head** meets its specification, and keeps the form of the
chain. -/
theorem exec_of_ne_nil {list : Chain α} (hwf : WellFormed list) (hne : list ≠ [])
    (call : Call α) :
    ∃ list' answer, exec list call = .ok (list', answer) ∧ WellFormed list' ∧
      SeqSpec (contents list) call (contents list') answer := by
  rcases hwf with rfl | ⟨xs, rfl⟩
  · cases call with
    | push data => exact ⟨[some data], .pushed, rfl, .inr ⟨[data], rfl⟩, rfl, rfl⟩
    | pop => exact ⟨[none], .popped none, rfl, .inl rfl, rfl, rfl⟩
    | addInorder data comp =>
        exact ⟨[some data], .added 1, rfl, .inr ⟨[data], rfl⟩, rfl, [], [], rfl, rfl⟩
  · cases xs with
    | nil => exact absurd rfl hne
    | cons x xs =>
        rw [contents_map_some]
        cases call with
        | push data =>
            refine ⟨(data :: x :: xs).map some, .pushed, rfl, .inr ⟨_, rfl⟩, rfl, ?_⟩
            exact contents_map_some _
        | pop =>
            refine ⟨xs.map some, .popped (some x), rfl, .inr ⟨_, rfl⟩, rfl, ?_⟩
            exact contents_map_some _
        | addInorder data comp =>
            -- the loop links the new node in front of the first one it does not pass
            obtain ⟨l, r, hsplit, hloop⟩ := insertLoop_map_some comp data (x :: xs)
            refine ⟨(l ++ data :: r).map some, .added 1, ?_, .inr ⟨_, rfl⟩, rfl, l, r, hsplit,
              contents_map_some _⟩
            rw [← hloop]
            rfl

/-- **A call on a NULL head** never meets its specification: two of the functions read
through the NULL pointer, the third answers 0. -/
theorem not_meetsSpec_nil (call : Call α) : ¬ MeetsSpec ([] : Chain α) call := by
  rintro ⟨list', answer, hexec, hspec⟩
  cases call with
  | push data => cases hexec
  | pop => cases hexec
  | addInorder data comp =>
      cases hexec
      cases hspec.1

theorem meetsSpec_iff {list : Chain α} (hwf : WellFormed list) (call : Call α) :
    MeetsSpec list call ↔ list ≠ [] := by
  constructor
  · rintro h rfl
    exact not_meetsSpec_nil call h
  · intro hne
    obtain ⟨list', answer, hexec, -, hspec⟩ := exec_of_ne_nil hwf hne call
    exact ⟨list', answer, hexec, hspec⟩

/-- One call keeps the form of the chain. -/
theorem step_wellFormed (list : Chain α) (call : Call α) (list' : Chain α) (answer : Answer α)
    (hwf : WellFormed list) (h : step list call = some (list', answer)) : WellFormed list' := by
  by_cases hne : list = []
  · subst hne
    cases call with
    | push data => cases h
    | pop => cases h
    | addInorder data comp =>
        cases h
        exact .inr ⟨[], rfl⟩
  · obtain ⟨list₁, answer₁, hexec, hwf₁, -⟩ := exec_of_ne_nil hwf hne call
    rw [step, hexec] at h
    cases h
    exact hwf₁

/-! ## Runs -/

/-- Every call of the run from `llist_create(d)` meets its specification. -/
def RunMeetsSpec (d : Option α) (calls : List (Call α)) : Prop :=
  ∀ before call after list answers, calls = before ++ call :: after →
    Runs.run step (llistCreate d) before = some (list, answers) → MeetsSpec list call

/-- No call of the run from `llist_create(d)` is made with a NULL head. -/
def HeadNeverNull (d : Option α) (calls : List (Call α)) : Prop :=
  ∀ before call after list answers, calls = before ++ call :: after →
    Runs.run step (llistCreate d) before = some (list, answers) → list ≠ []

/-- A run that meets its specifications is carried out to its end. -/
theorem RunMeetsSpec.returns {d : Option α} {calls : List (Call α)} (h : RunMeetsSpec d calls) :
    ∃ list answers, Runs.run step (llistCreate d) calls = some (list, answers) := by
  induction calls using List.reverseRecOn with
  | nil => exact ⟨_, [], rfl⟩
  | append_singleton calls call ih =>
      obtain ⟨list, answers, hrun⟩ := ih fun before c after list answers hsplit =>
        h before c (after ++ [call]) list answers (by rw [hsplit]; simp)
      obtain ⟨list', answer, hexec, -⟩ := h calls call [] list answers rfl hrun
      have hstep : step list call = some (list', answer) := by rw [step, hexec]; rfl
      exact ⟨list', answers ++ [answer], Runs.run_append_eq_some.mpr ⟨list, answers, [answer], hrun,
        Runs.run_cons_eq_some.mpr ⟨list', answer, [], hstep, rfl, rfl⟩, rfl⟩⟩

/-- **The list refines a sequence exactly as long as its head is not NULL.**  Every call
of a run does what it does to the sequence, without a fault, if and only if no call of
the run finds a NULL head; and then the run is carried out to its end. -/
theorem llist_refines_sequence_iff (d : Option α) (calls : List (Call α)) :
    (RunMeetsSpec d calls ↔ HeadNeverNull d calls) ∧ contents (llistCreate d) = d.toList ∧
      (HeadNeverNull d calls →
        ∃ list answers, Runs.run step (llistCreate d) calls = some (list, answers)) := by
  have hwf : ∀ before list answers,
      Runs.run step (llistCreate d) before = some (list, answers) → WellFormed list :=
    fun before list answers hrun =>
      Runs.run_invariant step_wellFormed before (wellFormed_create d) hrun
  have hiff : RunMeetsSpec d calls ↔ HeadNeverNull d calls := by
    constructor
    · intro h before call after list answers hsplit hrun
      exact (meetsSpec_iff (hwf before list answers hrun) call).mp
        (h before call after list answers hsplit hrun)
    · intro h before call after list answers hsplit hrun
      exact (meetsSpec_iff (hwf before list answers hrun) call).mpr
        (h before call after list answers hsplit hrun)
  exact ⟨hiff, contents_create d, fun h => (hiff.mpr h).returns⟩

/-- A list popped down to empty does not take a push: the run reads through NULL. -/
theorem push_after_last_pop_faults :
    ¬ RunMeetsSpec (some 1) [.pop, .push 2] := by
  intro h
  obtain ⟨list', answer, hexec, -⟩ := h [.pop] (.push 2) [] [] [.popped (some 1)] rfl rfl
  cases hexec

end Llist
