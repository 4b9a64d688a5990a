/-
# Records written round and round

A log of bounded size writes its records one behind the other, lap after lap: a record that
would reach the limit starts the next lap, at the front.  The front is not the log's alone
(another text is kept there), and a write may also erase some elements behind the record.
`Laps.push` is the bookkeeping of such a log and `Laps.Represents` what its text holds:

* `Laps.Represents.push` : a write that touches only the record and the gap behind it keeps
  the representation;
* `Laps.Represents.recent` : a record stays whole until so much has been written from it on
  that the next lap has come within the gap of it.
-/
import Mathlib.Data.List.Infix
import Mathlib.Order.Basic

namespace RecordRing

variable {α β : Type*}

/-! ## The bookkeeping -/

/-- How the records are laid out. -/
structure Layout (α β : Type*) where
  encode : α → List β
  /-- The elements in front of a lap that are not the log's alone. -/
  front : ℕ
  limit : ℕ
  /-- The elements behind a record that a write may erase. -/
  gap : ℕ
  longest : ℕ
  front_le : ∀ a, front ≤ (encode a).length
  le_longest : ∀ a, (encode a).length ≤ longest

/-- The records of a log: the laps that are written over, the last lap and the newest one. -/
structure Laps (α : Type*) where
  older : List α
  last : List α
  newest : List α
  /-- Where the next record goes, unless it starts a lap. -/
  cursor : ℕ

/-- All the records, in the order in which they were written. -/
def Laps.written (r : Laps α) : List α := r.older ++ r.last ++ r.newest

/-- The log before the first record. -/
def Laps.empty : Laps α := ⟨[], [], [], 0⟩

/-- One record behind the other. -/
def Layout.text (p : Layout α β) (l : List α) : List β := (l.map p.encode).flatten

/-- Where a record is written. -/
def Laps.offset (p : Layout α β) (r : Laps α) (a : α) : ℕ :=
  if p.limit ≤ r.cursor + (p.encode a).length then p.front else r.cursor

/-- A record is written: behind the newest lap, or at the start of the next. -/
def Laps.push (p : Layout α β) (r : Laps α) (a : α) : Laps α :=
  if p.limit ≤ r.cursor + (p.encode a).length then
    ⟨r.older ++ r.last, r.newest, [a], p.front + (p.encode a).length⟩
  else ⟨r.older, r.last, r.newest ++ [a], r.cursor + (p.encode a).length⟩

theorem Laps.written_push (p : Layout α β) (r : Laps α) (a : α) :
    (r.push p a).written = r.written ++ [a] := by
  unfold Laps.push Laps.written
  split <;> simp

theorem Laps.written_foldl (p : Layout α β) (r : Laps α) (l : List α) :
    (l.foldl (Laps.push p) r).written = r.written ++ l := by
  induction l generalizing r with
  | nil => exact (List.append_nil _).symm
  | cons a l ih =>
      rw [List.foldl_cons, ih, r.written_push, List.append_assoc]
      rfl

variable {p : Layout α β}

@[simp] theorem Layout.text_nil : p.text [] = [] := rfl

@[simp] theorem Layout.text_cons (a : α) (l : List α) :
    p.text (a :: l) = p.encode a ++ p.text l := rfl

@[simp] theorem Layout.text_append (l l' : List α) : p.text (l ++ l') = p.text l ++ p.text l' := by
  rw [Layout.text, List.map_append, List.flatten_append]
  rfl

/-- The first of some records is not all in the front. -/
theorem Layout.front_le_text {l : List α} (hl : l ≠ []) : p.front ≤ (p.text l).length := by
  obtain ⟨a, l, rfl⟩ := List.exists_cons_of_ne_nil hl
  have hfront := p.front_le a
  rw [Layout.text_cons, List.length_append]
  omega

/-! ## One lap -/

/-- Where a lap starts: the first one in the front, every other behind it. -/
def Layout.start (p : Layout α β) : List α → ℕ
  | [] => 0
  | _ :: _ => p.front

theorem Layout.start_le (l : List α) : p.start l ≤ p.front := by
  cases l with
  | nil => exact Nat.zero_le _
  | cons a l => exact le_rfl

theorem Layout.start_of_ne_nil {l : List α} (hl : l ≠ []) : p.start l = p.front := by
  cases l with
  | nil => exact absurd rfl hl
  | cons a l => rfl

/-- The text behind the front begins with the lap that follows the records `before`; what the
first lap has in the front is not there. -/
structure Holds (p : Layout α β) (before lap : List α) (cursor : ℕ) (text : List β) : Prop where
  ne_nil : lap ≠ []
  cursor_eq : cursor = p.start before + (p.text lap).length
  shape : ∃ after, text = (p.text lap).drop (p.front - p.start before) ++ after

variable {before lap l r : List α} {a : α} {cursor : ℕ} {text text' : List β}

theorem Holds.front_le (h : Holds p before lap cursor text) : p.front ≤ cursor := by
  have htext := p.front_le_text h.ne_nil
  rw [h.cursor_eq]
  omega

/-- **A record of the lap** is where the records behind it leave it, unless it is the first of
all. -/
theorem Holds.record (h : Holds p before (l ++ a :: r) cursor text) (hfirst : before ++ l ≠ []) :
    ∃ position rest, position + (p.encode a).length + (p.text r).length + p.front = cursor ∧
      text.drop position = p.encode a ++ rest := by
  obtain ⟨after, rfl⟩ := h.shape
  have hcursor := h.cursor_eq
  have hstart := p.start_le before
  have hcut : p.front - p.start before ≤ (p.text l).length := by
    cases before with
    | nil => exact (Nat.sub_le _ _).trans (p.front_le_text hfirst)
    | cons b before => exact (Nat.sub_self _).le.trans (Nat.zero_le _)
  refine ⟨(p.text l).length - (p.front - p.start before), p.text r ++ after, ?_, ?_⟩
  · rw [hcursor]
    simp only [Layout.text_append, Layout.text_cons, List.length_append]
    omega
  · rw [Layout.text_append, List.drop_append_of_le_length hcut, List.append_assoc,
      ← List.length_drop, List.drop_left, Layout.text_cons, List.append_assoc]

/-! ## All laps -/

/-- The text behind the front holds the newest lap, and of the last one what lies further
behind the cursor than the gap. -/
structure Laps.Represents (p : Layout α β) (r : Laps α) (text : List β) : Prop where
  newest : Holds p (r.older ++ r.last) r.newest r.cursor text
  last : r.last ≠ [] → ∃ end' old, Holds p r.older r.last end' old ∧ p.limit ≤ end' + p.longest ∧
    text.drop (r.cursor - p.front + p.gap) = old.drop (r.cursor - p.front + p.gap)
  older : r.last = [] → r.older = []

/-- What a write does to the text: the record is at its place, what lies before it is as it
was, and so is what lies further behind it than the gap. -/
def Writes (p : Layout α β) (text : List β) (position : ℕ) (a : α) (text' : List β) : Prop :=
  ∃ rest, text' = text.take position ++ p.encode a ++ rest ∧
    rest.drop p.gap = text.drop (position + (p.encode a).length + p.gap)

variable {ring : Laps α}

/-- **The first record.** -/
theorem represents_singleton (p : Layout α β) (hlimit : (p.encode a).length < p.limit) :
    Laps.Represents p (Laps.empty.push p a) ((p.encode a).drop p.front) := by
  have hpush : Laps.empty.push p a = ⟨[], [], [a], 0 + (p.encode a).length⟩ := by
    unfold Laps.push
    rw [if_neg]
    · rfl
    · show ¬ p.limit ≤ 0 + (p.encode a).length
      omega
  rw [hpush]
  refine ⟨⟨List.cons_ne_nil _ _, ?_, [], ?_⟩, fun hlast => absurd rfl hlast, fun _ => rfl⟩
  · simp [Layout.start]
  · simp [Layout.start]

/-- **The next record.** -/
theorem Laps.Represents.push (h : ring.Represents p text)
    (hwrites : Writes p text (ring.offset p a - p.front) a text') :
    (ring.push p a).Represents p text' := by
  obtain ⟨rest, rfl, hrest⟩ := hwrites
  have hfront := h.newest.front_le
  unfold Laps.offset at hrest
  unfold Laps.push Laps.offset
  by_cases hwrap : p.limit ≤ ring.cursor + (p.encode a).length
  · -- a new lap: the newest one so far is now the last
    have hne : ring.older ++ ring.last ++ ring.newest ≠ [] :=
      List.append_ne_nil_of_right_ne_nil _ h.newest.ne_nil
    rw [if_pos hwrap, Nat.sub_self] at hrest
    rw [if_pos hwrap, if_pos hwrap, Nat.sub_self]
    refine ⟨⟨List.cons_ne_nil _ _, ?_, rest, ?_⟩, fun _ => ⟨ring.cursor, text, h.newest, ?_, ?_⟩,
      fun hlast => absurd hlast h.newest.ne_nil⟩
    · rw [Layout.start_of_ne_nil hne]
      simp
    · rw [Layout.start_of_ne_nil hne]
      simp
    · exact hwrap.trans (Nat.add_le_add_left (p.le_longest a) _)
    · dsimp only
      rw [List.take_zero, List.nil_append, Nat.add_sub_cancel_left, ← List.drop_drop,
        List.drop_left, hrest, Nat.zero_add]
  · rw [if_neg hwrap] at hrest
    rw [if_neg hwrap, if_neg hwrap]
    obtain ⟨after, hafter⟩ := h.newest.shape
    have hcursor := h.newest.cursor_eq
    have hstart := p.start_le (ring.older ++ ring.last)
    have hcut := (Nat.sub_le p.front (p.start (ring.older ++ ring.last))).trans
      (p.front_le_text h.newest.ne_nil)
    -- the cursor is where the newest lap ends
    have hlen : ((p.text ring.newest).drop
        (p.front - p.start (ring.older ++ ring.last))).length = ring.cursor - p.front := by
      rw [List.length_drop, hcursor]
      omega
    have htake : text.take (ring.cursor - p.front) = (p.text ring.newest).drop
        (p.front - p.start (ring.older ++ ring.last)) := by
      rw [hafter, ← hlen, List.take_left]
    refine ⟨⟨List.append_ne_nil_of_right_ne_nil _ (List.cons_ne_nil _ _), ?_, rest, ?_⟩,
      fun hlast => ?_, h.older⟩
    · simp only [Layout.text_append, Layout.text_cons, Layout.text_nil, List.append_nil,
        List.length_append]
      omega
    · rw [htake, Layout.text_append, List.drop_append_of_le_length hcut, Layout.text_cons,
        Layout.text_nil, List.append_nil]
    · obtain ⟨end', old, hold, hlimit, hkept⟩ := h.last hlast
      refine ⟨end', old, hold, hlimit, ?_⟩
      have hlen' : (text.take (ring.cursor - p.front) ++ p.encode a).length =
          ring.cursor - p.front + (p.encode a).length := by
        rw [List.length_append, htake, hlen]
      have hend : ring.cursor + (p.encode a).length - p.front + p.gap =
          (text.take (ring.cursor - p.front) ++ p.encode a).length + p.gap := by omega
      have hmore : ring.cursor - p.front + (p.encode a).length + p.gap =
          ring.cursor - p.front + p.gap + (p.encode a).length := by omega
      calc (text.take (ring.cursor - p.front) ++ p.encode a ++ rest).drop
            (ring.cursor + (p.encode a).length - p.front + p.gap)
          = rest.drop p.gap := by rw [hend, ← List.drop_drop, List.drop_left]
        _ = (text.drop (ring.cursor - p.front + p.gap)).drop (p.encode a).length := by
          rw [hrest, hmore, List.drop_drop]
        _ = (old.drop (ring.cursor - p.front + p.gap)).drop (p.encode a).length := by rw [hkept]
        _ = old.drop (ring.cursor + (p.encode a).length - p.front + p.gap) := by
          rw [List.drop_drop, hend, hlen', hmore]

/-- A record of two lists one behind the other is in one of them. -/
theorem mem_append_cases {x y : List α} (h : x ++ y = l ++ a :: r) :
    (∃ l', l = x ++ l' ∧ y = l' ++ a :: r) ∨ ∃ r', x = l ++ a :: r' ∧ r = r' ++ y := by
  rcases List.append_eq_append_iff.mp h with ⟨l', hl, hy⟩ | ⟨r', hx, hr⟩
  · exact .inl ⟨l', hl, hy⟩
  · cases r' with
    | nil => exact .inl ⟨[], by rw [hx, List.append_nil, List.append_nil], hr.symm⟩
    | cons b r' =>
        obtain ⟨rfl, rfl⟩ := List.cons.inj hr
        exact .inr ⟨r', hx, rfl⟩

theorem isInfix_of_drop {position : ℕ} {l' rest : List β} (h : text.drop position = l' ++ rest) :
    l' <:+: text := by
  have hprefix : l' <:+: text.drop position := by
    rw [h]
    exact (List.prefix_append l' rest).isInfix
  exact hprefix.trans (List.drop_suffix position text).isInfix

/-- **A record stays whole** as long as what was written from it on leaves room for the front,
the gap and a longest record; but the first record of all is in the front. -/
theorem Laps.Represents.recent (h : ring.Represents p text)
    (hwritten : ring.written = l ++ a :: r) (hfirst : l ≠ [])
    (hrecent : (p.encode a).length + (p.text r).length + p.front + p.gap + p.longest ≤ p.limit) :
    p.encode a <:+: text := by
  by_cases hnil : p.encode a = []
  · rw [hnil]
    exact List.nil_infix
  have hpos : 0 < (p.encode a).length := List.length_pos_iff.mpr hnil
  rcases mem_append_cases hwritten with ⟨l', rfl, hnewest⟩ | ⟨r', hover, rfl⟩
  · -- in the newest lap
    have hholds := h.newest
    rw [hnewest] at hholds
    obtain ⟨position, rest, -, hdrop⟩ := hholds.record hfirst
    exact isInfix_of_drop hdrop
  have hlast : ring.last ≠ [] := by
    intro hnil
    rw [hnil, h.older hnil] at hover
    exact List.append_ne_nil_of_right_ne_nil _ (List.cons_ne_nil _ _) hover.symm
  obtain ⟨end', old, hold, hlimit, hkept⟩ := h.last hlast
  have hcursor := h.newest.cursor_eq
  have hstart : p.start (ring.older ++ ring.last) = p.front :=
    p.start_of_ne_nil (List.append_ne_nil_of_right_ne_nil _ hlast)
  rw [Layout.text_append, List.length_append] at hrecent
  rcases mem_append_cases hover with ⟨l', rfl, hsplit⟩ | ⟨r'', -, rfl⟩
  · -- in the last lap, and the newest one has not come near it
    rw [hsplit] at hold
    obtain ⟨position, rest, hposition, hdrop⟩ := hold.record hfirst
    have hle : ring.cursor - p.front + p.gap ≤ position := by omega
    have hsame : text.drop position = old.drop position := by
      rw [← Nat.add_sub_cancel' hle, ← List.drop_drop, hkept, List.drop_drop]
    exact isInfix_of_drop (hsame.trans hdrop)
  · -- in an older lap: the last one is too long for that
    have hend := hold.cursor_eq
    have hle := p.start_le ring.older
    rw [Layout.text_append, List.length_append] at hrecent
    omega

end RecordRing
