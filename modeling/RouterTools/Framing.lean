/-
# Self-delimiting formats

A frame writes values as sequences over an alphabet so that they can be read back from
the front of whatever follows: `decode (encode x ++ rest) = some (x, rest)`.  Frames are
built from lines that a terminator ends, literals in front of a frame, and frames one
after another.  Values written one after another are then read back as a list
(`decodeAll_flatMap`), so that no two lists have the same text.
-/
import Mathlib.Data.List.Basic
import Mathlib.Data.List.TakeWhile
import Mathlib.Logic.Equiv.Defs

/-- A format for values of `β` over the alphabet `α`. -/
structure Frame (α β : Type*) where
  encode : β → List α
  decode : List α → Option (β × List α)
  decode_encode : ∀ x rest, decode (encode x ++ rest) = some (x, rest)

namespace Frame

variable {α β γ : Type*}

/-- A text without the terminator. -/
abbrev Line (d : α) := { s : List α // d ∉ s }

section Build

variable [DecidableEq α]

/-- The part of a text before the terminator. -/
def lineOf (d : α) (s : List α) : Line d :=
  ⟨s.takeWhile (· ≠ d), fun h => by simpa using List.mem_takeWhile_imp h⟩

/-- A line with its terminator. -/
def line (d : α) : Frame α (Line d) where
  encode s := s.1 ++ [d]
  decode s :=
    match s.dropWhile (· ≠ d) with
    | [] => none
    | _ :: rest => some (lineOf d s, rest)
  decode_encode := by
    rintro ⟨s, hs⟩ rest
    have hall : ∀ b ∈ s, (decide (b ≠ d)) = true := by
      intro b hb
      simp only [ne_eq, decide_eq_true_eq]
      rintro rfl
      exact hs hb
    have hdrop : (s ++ d :: rest).dropWhile (· ≠ d) = d :: rest := by
      rw [List.dropWhile_append_of_pos hall, List.dropWhile_cons_of_neg (by simp)]
    have htake : (s ++ d :: rest).takeWhile (· ≠ d) = s := by
      rw [List.takeWhile_append_of_pos hall, List.takeWhile_cons_of_neg (by simp), List.append_nil]
    rw [List.append_assoc, List.singleton_append, hdrop]
    simp only [lineOf, htake]

/-- A frame with a literal in front. -/
def labelled (label : List α) (f : Frame α β) : Frame α β where
  encode x := label ++ f.encode x
  decode s := if label <+: s then f.decode (s.drop label.length) else none
  decode_encode := by
    intro x rest
    rw [List.append_assoc, if_pos (List.prefix_append _ _), List.drop_left, f.decode_encode]

/-- A frame with a literal behind. -/
def closed (f : Frame α β) (label : List α) : Frame α β where
  encode x := f.encode x ++ label
  decode s :=
    match f.decode s with
    | none => none
    | some (x, rest) => if label <+: rest then some (x, rest.drop label.length) else none
  decode_encode := by
    intro x rest
    rw [List.append_assoc, f.decode_encode]
    dsimp only
    rw [if_pos (List.prefix_append _ _), List.drop_left]

@[simp] theorem encode_line (d : α) (s : Line d) : (line d).encode s = s.1 ++ [d] := rfl

@[simp] theorem encode_labelled (label : List α) (f : Frame α β) (x : β) :
    (f.labelled label).encode x = label ++ f.encode x := rfl

@[simp] theorem encode_closed (f : Frame α β) (label : List α) (x : β) :
    (f.closed label).encode x = f.encode x ++ label := rfl

end Build

/-- Two frames one after the other. -/
def pair (f : Frame α β) (g : Frame α γ) : Frame α (β × γ) where
  encode x := f.encode x.1 ++ g.encode x.2
  decode s :=
    match f.decode s with
    | none => none
    | some (x, rest) => (g.decode rest).map fun y => ((x, y.1), y.2)
  decode_encode := by
    intro x rest
    rw [List.append_assoc, f.decode_encode]
    dsimp only
    rw [g.decode_encode]
    rfl

/-- The same texts for other values. -/
def ofEquiv (f : Frame α β) (e : γ ≃ β) : Frame α γ where
  encode x := f.encode (e x)
  decode s := (f.decode s).map fun y => (e.symm y.1, y.2)
  decode_encode := by
    intro x rest
    rw [f.decode_encode, Option.map_some, e.symm_apply_apply]

@[simp] theorem encode_pair (f : Frame α β) (g : Frame α γ) (x : β × γ) :
    (f.pair g).encode x = f.encode x.1 ++ g.encode x.2 := rfl

@[simp] theorem encode_ofEquiv (f : Frame α β) (e : γ ≃ β) (x : γ) :
    (f.ofEquiv e).encode x = f.encode (e x) := rfl

/-! ## Lists of values -/

variable (f : Frame α β)

/-- What `fuel` values in a row give, when they use up the text. -/
def decodeFrom : ℕ → List α → Option (List β)
  | _, [] => some []
  | 0, _ :: _ => none
  | fuel + 1, c :: s =>
      match f.decode (c :: s) with
      | none => none
      | some (x, rest) => (decodeFrom fuel rest).map (x :: ·)

/-- All values in a text: each uses up a letter of it. -/
def decodeAll (s : List α) : Option (List β) := f.decodeFrom s.length s

variable {f}

theorem decodeFrom_flatMap (hne : ∀ x, f.encode x ≠ []) (xs : List β) :
    ∀ fuel, xs.length ≤ fuel → f.decodeFrom fuel (xs.flatMap f.encode) = some xs := by
  induction xs with
  | nil =>
      intro fuel _
      cases fuel <;> rfl
  | cons x xs ih =>
      intro fuel hfuel
      obtain ⟨fuel, rfl⟩ : ∃ n, fuel = n + 1 := ⟨fuel - 1, by simp at hfuel; omega⟩
      have hrest := ih fuel (by simpa using hfuel)
      rw [List.flatMap_cons]
      obtain ⟨c, s, hcs⟩ := List.exists_cons_of_ne_nil (hne x)
      have hdecode := f.decode_encode x (xs.flatMap f.encode)
      rw [hcs, List.cons_append] at hdecode ⊢
      rw [decodeFrom, hdecode]
      dsimp only
      rw [hrest]
      rfl

/-- A text is no shorter than the list it stands for. -/
theorem length_le_length_flatMap (hne : ∀ x, f.encode x ≠ []) (xs : List β) :
    xs.length ≤ (xs.flatMap f.encode).length := by
  induction xs with
  | nil => exact Nat.zero_le _
  | cons x xs ih =>
      have hpos : 0 < (f.encode x).length := List.length_pos_iff.mpr (hne x)
      rw [List.flatMap_cons, List.length_append, List.length_cons]
      omega

/-- **Values written one after another are read back.** -/
theorem decodeAll_flatMap (hne : ∀ x, f.encode x ≠ []) (xs : List β) :
    f.decodeAll (xs.flatMap f.encode) = some xs :=
  decodeFrom_flatMap hne xs _ (length_le_length_flatMap hne xs)

end Frame
