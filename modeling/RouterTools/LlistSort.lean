/-
# Ordered insertion sorts

`llist_add_inorder` links a new node before the first node that does not compare
negative with it.  On a list that is in order this is Mathlib's `List.orderedInsert`,
so a run of ordered insertions is `List.insertionSort` of the data, last datum first.
Insertion sort is stable; hence data that compare equal stand in reverse order of
insertion.
-/
import Mathlib.Data.List.Sort
import RouterTools.Llist

namespace Llist

variable {α : Type*}

/-- `comp` compares by the total preorder `le`: it is negative exactly when its first
argument stands strictly before the second. -/
structure Compares (comp : Option α → Option α → ℤ) (le : α → α → Prop) : Prop where
  total : ∀ a b, le a b ∨ le b a
  trans : ∀ a b c, le a b → le b c → le a c
  neg_iff : ∀ a b, comp (some a) (some b) < 0 ↔ le a b ∧ ¬ le b a

/-- `a` and `b` compare equal. -/
def Tied (le : α → α → Prop) (a b : α) : Prop := le a b ∧ le b a

instance (le : α → α → Prop) [DecidableRel le] (a : α) : DecidablePred (Tied le a) :=
  fun b => inferInstanceAs (Decidable (le a b ∧ le b a))

/-! ## Insertion sort is stable -/

/-- **Stability.**  The data that compare equal to `a` keep their order. -/
theorem filter_tied_insertionSort {le : α → α → Prop} [DecidableRel le]
    (htotal : ∀ a b, le a b ∨ le b a) (htrans : ∀ a b c, le a b → le b c → le a c) (a : α)
    (xs : List α) :
    (xs.insertionSort le).filter (Tied le a) = xs.filter (Tied le a) := by
  have : Std.Total le := ⟨htotal⟩
  have : IsTrans α le := ⟨htrans⟩
  -- the tied data are in order among themselves, so they survive as a sublist
  have hordered : (xs.filter (Tied le a)).Pairwise le := by
    apply List.pairwise_of_forall_mem_list
    intro x hx y hy
    obtain ⟨-, hx⟩ := List.mem_filter.mp hx
    obtain ⟨-, hy⟩ := List.mem_filter.mp hy
    exact htrans x a y (of_decide_eq_true hx).2 (of_decide_eq_true hy).1
  have hsub : (xs.filter (Tied le a)).Sublist (xs.insertionSort le) :=
    List.sublist_insertionSort hordered List.filter_sublist
  have hsub' := hsub.filter (fun b => decide (Tied le a b))
  simp only [List.filter_filter, Bool.and_self] at hsub'
  have hlen := ((List.perm_insertionSort le xs).filter (fun b => decide (Tied le a b))).length_eq
  exact (hsub'.eq_of_length hlen.symm).symm

/-! ## The insertion loop -/

section Sorting

variable {comp : Option α → Option α → ℤ} {le : α → α → Prop}

/-- The search goes on exactly past the data the new datum does not precede. -/
theorem Compares.neg_iff_not_le (h : Compares comp le) (x data : α) :
    comp (some x) (some data) < 0 ↔ ¬ le data x := by
  rw [h.neg_iff]
  constructor
  · exact fun hlt => hlt.2
  · intro hnot
    rcases h.total x data with hle | hle
    · exact ⟨hle, hnot⟩
    · exact absurd hle hnot

variable [DecidableRel le]

/-- **The loop of `llist_add_inorder`** is ordered insertion. -/
theorem insertLoop_eq_orderedInsert (h : Compares comp le) (data : α) (xs : List α) :
    insertLoop comp (some data) (xs.map some) = (xs.orderedInsert le data).map some := by
  induction xs with
  | nil => rfl
  | cons x xs ih =>
      rw [List.map_cons, insertLoop, List.orderedInsert_cons]
      by_cases hle : le data x
      · rw [if_pos hle, if_neg (fun hneg => (h.neg_iff_not_le x data).mp hneg hle)]
        rfl
      · rw [if_neg hle, if_pos ((h.neg_iff_not_le x data).mpr hle), ih]
        rfl

/-- The chain of a sequence: the sentinel stands for the empty one. -/
def chainOf : List α → Chain α
  | [] => [none]
  | x :: xs => (x :: xs).map some

theorem llistCreate_eq_chainOf (d : Option α) : llistCreate d = chainOf d.toList := by
  cases d <;> rfl

theorem contents_chainOf (xs : List α) : contents (chainOf xs) = xs := by
  cases xs with
  | nil => rfl
  | cons x xs => exact contents_map_some (x :: xs)

theorem chainOf_of_ne_nil {xs : List α} (h : xs ≠ []) : chainOf xs = xs.map some := by
  cases xs with
  | nil => exact absurd rfl h
  | cons x xs => rfl

theorem orderedInsert_ne_nil (data : α) (xs : List α) : xs.orderedInsert le data ≠ [] := by
  have hmem : data ∈ xs.orderedInsert le data := (List.mem_orderedInsert le).mpr (.inl rfl)
  exact List.ne_nil_of_mem hmem

/-- **One ordered insertion**, into the sentinel or into nodes. -/
theorem step_addInorder (h : Compares comp le) (data : α) (xs : List α) :
    step (chainOf xs) (.addInorder data comp) =
      some (chainOf (xs.orderedInsert le data), .added 1) := by
  rw [chainOf_of_ne_nil (orderedInsert_ne_nil data xs)]
  cases xs with
  | nil => rfl
  | cons x xs =>
      rw [← insertLoop_eq_orderedInsert h]
      rfl

/-- **A run of ordered insertions** sorts the data, the last one first. -/
theorem run_addInorder (h : Compares comp le) (ds xs : List α) :
    Runs.run step (chainOf (xs.insertionSort le)) (ds.map fun d => .addInorder d comp) =
      some (chainOf ((ds.reverse ++ xs).insertionSort le),
        List.replicate ds.length (.added 1)) := by
  induction ds generalizing xs with
  | nil => rfl
  | cons d ds ih =>
      have hstep := step_addInorder h d (xs.insertionSort le)
      rw [← List.insertionSort_cons] at hstep
      have happ : (d :: ds).reverse ++ xs = ds.reverse ++ d :: xs := by
        rw [List.reverse_cons, List.append_assoc]
        rfl
      rw [happ]
      exact Runs.run_cons_eq_some.mpr ⟨_, _, _, hstep, ih (d :: xs), rfl⟩

end Sorting

/-- **Ordered insertion is a sort.**  Every insertion into a created list returns 1, and
the list is then in order, holds what it was created with and what was inserted, each as
often as it came, and has data that compare equal in reverse order of insertion. -/
theorem llist_addInorder_sorts {comp : Option α → Option α → ℤ} {le : α → α → Prop}
    [DecidableRel le] (h : Compares comp le) (d : Option α) (ds : List α) :
    ∃ list, Runs.run step (llistCreate d) (ds.map fun data => .addInorder data comp) =
        some (list, List.replicate ds.length (.added 1)) ∧
      (contents list).Pairwise le ∧ (contents list).Perm (d.toList ++ ds) ∧
      ∀ a, (contents list).filter (Tied le a) =
        ((d.toList ++ ds).filter (Tied le a)).reverse := by
  have : Std.Total le := ⟨h.total⟩
  have : IsTrans α le := ⟨h.trans⟩
  have hinit : llistCreate d = chainOf (d.toList.insertionSort le) := by
    rw [llistCreate_eq_chainOf]
    cases d <;> rfl
  have hrev : ds.reverse ++ d.toList = (d.toList ++ ds).reverse := by
    rw [List.reverse_append]
    cases d <;> rfl
  refine ⟨_, by rw [hinit, run_addInorder h], ?_⟩
  rw [contents_chainOf, hrev]
  refine ⟨List.pairwise_insertionSort le _, ?_, fun a => ?_⟩
  · exact (List.perm_insertionSort le _).trans (List.reverse_perm _)
  · rw [filter_tied_insertionSort h.total h.trans, List.filter_reverse]

/-- Numbers compared by their tens. -/
theorem llist_addInorder_sorts_tens :
    ∃ list, Runs.run step (llistCreate (some 25)) ([31, 12, 28, 17].map fun data =>
        .addInorder data fun a b => (a.getD 0 / 10 : ℤ) - (b.getD 0 / 10 : ℤ)) =
        some (list, [.added 1, .added 1, .added 1, .added 1]) ∧
      (contents list).filter (Tied (fun a b : ℤ => a / 10 ≤ b / 10) 20) = [28, 25] := by
  have hcomp : Compares (fun a b : Option ℤ => (a.getD 0 / 10 : ℤ) - (b.getD 0 / 10 : ℤ))
      fun a b => a / 10 ≤ b / 10 := by
    refine ⟨fun a b => le_total _ _, fun a b c => le_trans, fun a b => ?_⟩
    simp only [Option.getD_some]
    omega
  obtain ⟨list, hrun, -, -, htied⟩ := llist_addInorder_sorts hcomp (some 25) [31, 12, 28, 17]
  exact ⟨list, hrun, (htied 20).trans (by decide)⟩

end Llist
