/-
# Lists of records with a key, as finite maps

A linked list of records that are told apart by one field (their key) is a finite
map from keys to records as long as no key occurs twice.  `Distinct` is that
condition, `lookup` the map, and `remove` takes the record of a key out.  The
lemmas say what the list operations do to the map (`Function.update` on both
sides) and that they keep the keys distinct.
-/
import Mathlib.Data.List.Nodup
import Mathlib.Logic.Function.Basic

namespace KeyedList

variable {α β κ : Type*}

/-- No key occurs twice. -/
def Distinct (key : α → κ) (l : List α) : Prop := (l.map key).Nodup

variable {key : α → κ}

@[simp] theorem distinct_nil : Distinct key [] := List.nodup_nil

@[simp] theorem distinct_cons {a : α} {l : List α} :
    Distinct key (a :: l) ↔ key a ∉ l.map key ∧ Distinct key l := by
  rw [Distinct, List.map_cons, List.nodup_cons]
  exact Iff.rfl

/-- Only the keys matter for distinctness. -/
theorem Distinct.of_map_eq {key' : β → κ} {l : List α} {l' : List β}
    (hl : Distinct key l) (h : l'.map key' = l.map key) : Distinct key' l' := by
  rw [Distinct, h]
  exact hl

/-- A sublist of a list with distinct keys has distinct keys. -/
theorem Distinct.sublist {l l' : List α} (hl : Distinct key l) (h : l'.Sublist l) :
    Distinct key l' :=
  List.Nodup.sublist (h.map key) hl

variable [DecidableEq κ]

/-- The record of a key. -/
def lookup (key : α → κ) (l : List α) (k : κ) : Option α := l.find? fun a => key a = k

/-- The list without the first record of a key. -/
def remove (key : α → κ) (l : List α) (k : κ) : List α := l.eraseP fun a => key a = k

@[simp] theorem lookup_nil (k : κ) : lookup key [] k = none := rfl

theorem lookup_cons (a : α) (l : List α) (k : κ) :
    lookup key (a :: l) k = if key a = k then some a else lookup key l k := by
  rw [lookup, List.find?_cons]
  by_cases h : key a = k <;> simp [h, lookup]

theorem lookup_eq_none_iff {l : List α} {k : κ} : lookup key l k = none ↔ k ∉ l.map key := by
  simp [lookup, List.find?_eq_none]

theorem lookup_isSome_iff {l : List α} {k : κ} : (lookup key l k).isSome ↔ k ∈ l.map key := by
  rw [← not_iff_not, ← lookup_eq_none_iff]
  simp

/-- A record found under a key has that key and is in the list. -/
theorem lookup_eq_some {l : List α} {k : κ} {a : α} (h : lookup key l k = some a) :
    key a = k ∧ a ∈ l :=
  ⟨by simpa using List.find?_some h, List.mem_of_find?_eq_some h⟩

/-- With distinct keys, each record is the one found under its key. -/
theorem lookup_of_mem {l : List α} (hl : Distinct key l) {a : α} (ha : a ∈ l) :
    lookup key l (key a) = some a := by
  induction l with
  | nil => cases ha
  | cons b l ih =>
      obtain ⟨hb, hl'⟩ := distinct_cons.mp hl
      rw [lookup_cons]
      rcases List.mem_cons.mp ha with rfl | ha'
      · rw [if_pos rfl]
      · have hne : key b ≠ key a := fun he => hb (he ▸ List.mem_map_of_mem ha')
        rw [if_neg hne, ih hl' ha']

/-! ## The operations on the map -/

/-- Putting a record in front maps its key to it. -/
theorem lookup_cons_eq_update (a : α) (l : List α) :
    lookup key (a :: l) = Function.update (lookup key l) (key a) (some a) := by
  funext k
  rw [lookup_cons]
  by_cases h : key a = k
  · subst h
    simp
  · rw [if_neg h, Function.update_of_ne (Ne.symm h)]

/-- Removing a key takes exactly that key out of the map. -/
theorem lookup_remove {l : List α} (hl : Distinct key l) (k : κ) :
    lookup key (remove key l k) = Function.update (lookup key l) k none := by
  induction l with
  | nil =>
      funext k'
      simp [remove, Function.update_apply]
  | cons a l ih =>
      obtain ⟨ha, hl'⟩ := distinct_cons.mp hl
      funext k'
      by_cases h : key a = k
      · subst h
        -- the key is at the front: no later entry has it
        have hrem : remove key (a :: l) (key a) = l := by simp [remove]
        rw [hrem, lookup_cons_eq_update, Function.update_idem]
        by_cases h' : k' = key a
        · subst h'
          rw [Function.update_self, lookup_eq_none_iff.mpr ha]
        · rw [Function.update_of_ne h']
      · have hrem : remove key (a :: l) k = a :: remove key l k := by
          simp [remove, h]
        rw [hrem, lookup_cons, ih hl', Function.update_apply, Function.update_apply, lookup_cons]
        by_cases h' : k' = k
        · subst h'
          simp [h]
        · simp [h']

/-! ## Removal on the list -/

/-- Removing a present key cuts out one record and keeps the others in order. -/
theorem exists_remove_eq {l : List α} {k : κ} (h : k ∈ l.map key) :
    ∃ l₁ a l₂, l = l₁ ++ a :: l₂ ∧ key a = k ∧ k ∉ l₁.map key ∧ remove key l k = l₁ ++ l₂ := by
  obtain ⟨b, hb, hk⟩ := List.mem_map.mp h
  obtain ⟨a, l₁, l₂, h1, h2, h3, h4⟩ :=
    List.exists_of_eraseP (p := fun a => decide (key a = k)) hb (by simpa using hk)
  refine ⟨l₁, a, l₂, h3, by simpa using h2, ?_, h4⟩
  intro hmem
  obtain ⟨c, hc, hck⟩ := List.mem_map.mp hmem
  exact h1 c hc (by simpa using hck)

/-- The keys that remain are distinct. -/
theorem Distinct.remove {l : List α} (hl : Distinct key l) (k : κ) :
    Distinct key (remove key l k) :=
  hl.sublist List.eraseP_sublist

end KeyedList
