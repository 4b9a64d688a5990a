/-
# Circular lists of elements

The containers of a C library that links its elements in a circle: a pointer is followed
from the head until it is the head again.  `Linked` relates the pointers to the sequence
of nodes, a `CircularList` carries it, and a loop over the pointers that may be left
early, with enough fuel, is `forIn` over the elements (`foreach_eq_forIn`).
-/
import Mathlib.Data.List.Basic

variable {P α σ : Type*}

/-- From `a` to `b` along `next`, over the given nodes. -/
def Linked (next : P → P) : P → List P → P → Prop
  | a, [], b => next a = b
  | a, p :: nodes, b => next a = p ∧ Linked next p nodes b

/-- A circle of nodes through `head`. -/
structure CircularList (P α : Type*) where
  head : P
  next : P → P
  /-- The element that a node is part of. -/
  elem : P → α
  nodes : List P
  linked : Linked next head nodes head
  head_notMem : head ∉ nodes

namespace CircularList

/-- The elements, in order. -/
def toList (l : CircularList P α) : List α := l.nodes.map l.elem

section Loop

variable [DecidableEq P] (l : CircularList P α)

/-- The loop from a pointer on; none where the fuel runs out or the body fails. -/
def walk (body : α → σ → Option (ForInStep σ)) : ℕ → P → σ → Option σ
  | 0, _, _ => none
  | fuel + 1, ptr, s =>
      if ptr = l.head then some s
      else match body (l.elem ptr) s with
        | none => none
        | some (.done s) => some s
        | some (.yield s) => walk body fuel (l.next ptr) s

/-- `for (ptr = head->next; ptr != head; ptr = ptr->next) body`. -/
def foreach (fuel : ℕ) (s : σ) (body : α → σ → Option (ForInStep σ)) : Option σ :=
  l.walk body fuel (l.next l.head) s

variable {l}

theorem walk_eq_forIn (body : α → σ → Option (ForInStep σ)) (nodes : List P) :
    ∀ (fuel : ℕ) (a : P) (s : σ), Linked l.next a nodes l.head → l.head ∉ nodes →
      nodes.length < fuel →
      l.walk body fuel (l.next a) s = forIn (nodes.map l.elem) s body := by
  induction nodes with
  | nil =>
      intro fuel a s hlinked _ hfuel
      obtain ⟨fuel, rfl⟩ : ∃ n, fuel = n + 1 := ⟨fuel - 1, by simp at hfuel; omega⟩
      -- after the last node the pointer is the head again
      have hend : l.next a = l.head := hlinked
      rw [walk, if_pos hend]
      rfl
  | cons p nodes ih =>
      intro fuel a s hlinked hhead hfuel
      obtain ⟨fuel, rfl⟩ : ∃ n, fuel = n + 1 := ⟨fuel - 1, by simp at hfuel; omega⟩
      obtain ⟨hnext, hrest⟩ := hlinked
      rw [List.mem_cons, not_or] at hhead
      rw [List.length_cons] at hfuel
      rw [walk, hnext, if_neg (Ne.symm hhead.1), List.map_cons, List.forIn_cons]
      cases hbody : body (l.elem p) s with
      | none => rfl
      | some step =>
          cases step with
          | done s' => rfl
          | yield s' => exact ih fuel p s' hrest hhead.2 (by omega)

/-- **The loop over the pointers is the loop over the elements.** -/
theorem foreach_eq_forIn {fuel : ℕ} (h : l.nodes.length < fuel) (s : σ)
    (body : α → σ → Option (ForInStep σ)) : l.foreach fuel s body = forIn l.toList s body :=
  walk_eq_forIn body l.nodes fuel l.head s l.linked l.head_notMem h

/-- A loop that is never left early. -/
theorem foreach_yield {fuel : ℕ} (h : l.nodes.length < fuel) {body : α → σ → Option (ForInStep σ)}
    {f : α → σ → σ} (hbody : ∀ a ∈ l.toList, ∀ s, body a s = some (.yield (f a s))) (s : σ) :
    l.foreach fuel s body = some (l.toList.foldl (fun s a => f a s) s) := by
  rw [foreach_eq_forIn h]
  generalize l.toList = xs at hbody
  induction xs generalizing s with
  | nil => rfl
  | cons a xs ih =>
      rw [List.forIn_cons, hbody a List.mem_cons_self, List.foldl_cons]
      exact ih (f a s) fun b hb => hbody b (List.mem_cons_of_mem a hb)

/-- A search, left at the first element found. -/
theorem foreach_find {fuel : ℕ} (h : l.nodes.length < fuel) (p : α → Bool) :
    l.foreach fuel none (fun a s => if p a then some (.done (some a)) else some (.yield s)) =
      some (l.toList.find? p) := by
  rw [foreach_eq_forIn h]
  generalize l.toList = xs
  induction xs with
  | nil => rfl
  | cons a xs ih =>
      rw [List.forIn_cons, List.find?_cons]
      cases hp : p a with
      | true => rfl
      | false => exact ih

end Loop

/-! ## A circle for every sequence -/

theorem linked_range' (next : ℕ → ℕ) (n : ℕ) (hstep : ∀ p < n, next p = p + 1) (hlast : next n = 0)
    (k : ℕ) : ∀ a, a + k = n → Linked next a (List.range' (a + 1) k) 0 := by
  induction k with
  | zero =>
      intro a ha
      show next a = 0
      rw [show a = n by omega, hlast]
  | succ k ih =>
      intro a ha
      rw [List.range'_succ]
      exact ⟨hstep a (by omega), ih (a + 1) (by omega)⟩

/-- The circle of the given elements, with their positions as pointers; `garbage` is what
the head is part of. -/
def ofList (garbage : α) (xs : List α) : CircularList ℕ α where
  head := 0
  next p := if p < xs.length then p + 1 else 0
  elem p := xs.getD (p - 1) garbage
  nodes := List.range' 1 xs.length
  linked := by
    apply linked_range' _ xs.length _ _ xs.length 0 (Nat.zero_add _)
    · intro p hp
      rw [if_pos hp]
    · rw [if_neg (Nat.lt_irrefl _)]
  head_notMem := by simp

end CircularList
