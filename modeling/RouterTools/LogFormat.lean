/-
# Well-formed log files

A log file is well formed when it starts with the header of a cursor that is the start of
a line, or the end of the file, and every later line is a run of spaces followed by
nothing or by one complete record.  The last line may lack its newline only when it is a
run of spaces: a complete record has one.

Beside the definitions stand the facts about bodies (the part behind the header) and
about the offsets records are found at.
-/
import RouterTools.LogBounds

namespace CircularLog

open CString Stdio

/-! ## Lines -/

/-- The bytes of a text up to and with its first newline. -/
def firstLine (s : List UInt8) : List UInt8 := readLine s.length s

/-- A text after which a line starts. -/
def EndsLine (s : List UInt8) : Prop := s = [] ∨ ∃ l, s = l ++ [newline]

/-- A text after which a line has only spaces so far. -/
def OpenLine (s : List UInt8) : Prop := ∃ q k, s = q ++ spaces k ∧ EndsLine q

/-- Spaces and newlines only. -/
def Blank (s : List UInt8) : Prop := ∀ b ∈ s, b = space ∨ b = newline

instance : DecidablePred Blank := fun s =>
  List.decidableBAll (fun b => b = space ∨ b = newline) s

/-- The first newline of a text is not behind a newline of it. -/
theorem first_newline {l u v w : List UInt8} (hl : newline ∉ l)
    (h : u ++ newline :: v = l ++ newline :: w) :
    ∃ t, u ++ [newline] = l ++ newline :: t ∧ w = t ++ v := by
  rw [List.append_eq_append_iff] at h
  rcases h with ⟨a, rfl, ha⟩ | ⟨a, rfl, ha⟩
  · cases a with
    | nil =>
        rw [List.nil_append, List.cons.injEq] at ha
        exact ⟨[], by simp, ha.2.symm⟩
    | cons x a =>
        rw [List.cons_append, List.cons.injEq] at ha
        exact absurd (by rw [← ha.1]; simp) hl
  · cases a with
    | nil =>
        rw [List.nil_append, List.cons.injEq] at ha
        exact ⟨[], by simp, ha.2⟩
    | cons x a =>
        rw [List.cons_append, List.cons.injEq] at ha
        exact ⟨a ++ [newline], by rw [← ha.1]; simp, by rw [ha.2]; simp⟩

/-- A text splits in one way at its first newline. -/
theorem first_newline_unique {l l' v w : List UInt8} (hl : newline ∉ l) (hl' : newline ∉ l')
    (h : l ++ newline :: v = l' ++ newline :: w) : l = l' ∧ v = w := by
  obtain ⟨t, ht, rfl⟩ := first_newline hl' h
  rcases t.eq_nil_or_concat with rfl | ⟨t, b, rfl⟩
  · exact ⟨List.append_cancel_right ht, rfl⟩
  · have hl2 : l = l' ++ newline :: t := by
      rw [List.concat_eq_append, ← List.cons_append, ← List.append_assoc] at ht
      exact (List.append_inj' ht rfl).1
    exact absurd (by rw [hl2]; simp) hl

theorem EndsLine.append {s t : List UInt8} (hs : EndsLine s) (ht : EndsLine t) :
    EndsLine (s ++ t) := by
  rcases ht with rfl | ⟨l, rfl⟩
  · rw [List.append_nil]
    exact hs
  · exact .inr ⟨s ++ l, by rw [List.append_assoc]⟩

theorem EndsLine.drop {s : List UInt8} (hs : EndsLine s) (j : ℕ) : EndsLine (s.drop j) := by
  rcases hs with rfl | ⟨l, rfl⟩
  · rw [List.drop_nil]
    exact .inl rfl
  · by_cases h : j ≤ l.length
    · rw [List.drop_append_of_le_length h]
      exact .inr ⟨_, rfl⟩
    · rw [List.drop_eq_nil_of_le (by rw [List.length_append, List.length_singleton]; omega)]
      exact .inl rfl

theorem EndsLine.openLine {s : List UInt8} (hs : EndsLine s) : OpenLine s :=
  ⟨s, 0, (List.append_nil s).symm, hs⟩

theorem OpenLine.append_spaces {s : List UInt8} (hs : OpenLine s) (n : ℕ) :
    OpenLine (s ++ spaces n) := by
  obtain ⟨q, k, rfl, hq⟩ := hs
  refine ⟨q, k + n, ?_, hq⟩
  rw [List.append_assoc, spaces, spaces, spaces, List.replicate_append_replicate]

theorem EndsLine.append_openLine {s t : List UInt8} (hs : EndsLine s) (ht : OpenLine t) :
    OpenLine (s ++ t) := by
  obtain ⟨q, k, rfl, hq⟩ := ht
  exact ⟨s ++ q, k, (List.append_assoc s q _).symm, hs.append hq⟩

/-! ## Records -/

/-- A complete record: its text has no newline, and no NUL. -/
structure Record where
  now : CivilTime
  level : Level
  text : CString
  oneLine : newline ∉ text
  noNul : 0 ∉ text

/-- `[time] [LEVEL] text`. -/
def Record.line (r : Record) : CString :=
  str "[" ++ r.now.text ++ str "] [" ++ r.level.string ++ str "] " ++ r.text

/-- The bytes of the record in the file. -/
def Record.bytes (r : Record) : CString := recordText r.now r.level r.text

theorem Record.bytes_eq (r : Record) : r.bytes = r.line ++ [newline] := rfl

theorem Record.bytes_append (r : Record) (s : List UInt8) :
    r.bytes ++ s = r.line ++ newline :: s := by
  rw [Record.bytes_eq, List.append_assoc, List.singleton_append]

theorem Record.endsLine (r : Record) (s : List UInt8) : EndsLine (s ++ r.bytes) :=
  .inr ⟨s ++ r.line, by rw [r.bytes_eq, List.append_assoc]⟩

theorem Record.line_eq_cons (r : Record) : ∃ l, r.line = 91 :: l := ⟨_, rfl⟩

theorem Record.not_mem_line (r : Record) {b : UInt8} (hdigit : ∀ d < 10, b ≠ UInt8.ofNat (48 + d))
    (hpunct : b ∉ str "- :") (hlevel : ∀ level : Level, b ∉ level.string)
    (hbracket : b ∉ str "[" ∧ b ∉ str "] [" ∧ b ∉ str "] ") (htext : b ∉ r.text) : b ∉ r.line := by
  have htime := r.now.not_mem_text hdigit hpunct
  have hlevel := hlevel r.level
  simp only [Record.line, List.mem_append, not_or]
  exact ⟨⟨⟨⟨⟨hbracket.1, htime⟩, hbracket.2.1⟩, hlevel⟩, hbracket.2.2⟩, htext⟩

theorem Record.newline_not_mem_line (r : Record) : newline ∉ r.line := by
  refine r.not_mem_line (by decide) (by decide) ?_ (by decide) r.oneLine
  intro level
  cases level <;> decide

theorem Record.nul_not_mem_bytes (r : Record) : 0 ∉ r.bytes := by
  rw [Record.bytes_eq, List.mem_append, not_or]
  refine ⟨r.not_mem_line (by decide) (by decide) ?_ (by decide) r.noNul, by decide⟩
  intro level
  cases level <;> decide

/-! ## Bodies -/

/-- A run of spaces followed by nothing or by one complete record. -/
def IsLine (l : List UInt8) : Prop := (∃ n, l = spaces n) ∨ ∃ n r, l = spaces n ++ Record.line r

/-- The part of a file behind the header. -/
inductive Body : List UInt8 → Prop where
  | last (n : ℕ) : Body (spaces n)
  | line {l rest : List UInt8} : IsLine l → Body rest → Body (l ++ newline :: rest)

theorem Body.nil : Body [] := Body.last 0

theorem IsLine.newline_not_mem {l : List UInt8} (h : IsLine l) : newline ∉ l := by
  rcases h with ⟨n, rfl⟩ | ⟨n, r, rfl⟩
  · exact newline_not_mem_spaces n
  · rw [List.mem_append, not_or]
    exact ⟨newline_not_mem_spaces n, r.newline_not_mem_line⟩

/-- A body by its first line. -/
theorem body_line_iff {l rest : List UInt8} (hl : newline ∉ l) :
    Body (l ++ newline :: rest) ↔ IsLine l ∧ Body rest := by
  constructor
  · intro h
    generalize heq : l ++ newline :: rest = s at h
    cases h with
    | last n =>
        exact absurd (by rw [← heq]; simp) (newline_not_mem_spaces n)
    | line hline hrest =>
        obtain ⟨rfl, rfl⟩ := first_newline_unique hl hline.newline_not_mem heq
        exact ⟨hline, hrest⟩
  · exact fun h => Body.line h.1 h.2

theorem isLine_space_iff {l : List UInt8} : IsLine (space :: l) ↔ IsLine l := by
  constructor
  · rintro (⟨n, hn⟩ | ⟨n, r, hr⟩)
    · cases n with
      | zero => cases hn
      | succ n => exact .inl ⟨n, (List.cons.inj hn).2⟩
    · cases n with
      | zero =>
          obtain ⟨l', hl'⟩ := r.line_eq_cons
          have h := hr.trans hl'
          exact absurd (List.cons.inj h).1 (by decide)
      | succ n => exact .inr ⟨n, r, (List.cons.inj hr).2⟩
  · rintro (⟨n, rfl⟩ | ⟨n, r, rfl⟩)
    · exact .inl ⟨n + 1, rfl⟩
    · exact .inr ⟨n + 1, r, rfl⟩

/-- A space in front does not matter. -/
theorem body_space_iff {b : List UInt8} : Body (space :: b) ↔ Body b := by
  constructor
  · intro h
    generalize heq : space :: b = s at h
    cases h with
    | last n =>
        cases n with
        | zero => cases heq
        | succ n =>
            rw [(List.cons.inj heq).2]
            exact Body.last n
    | line hline hrest =>
        rename_i l rest
        cases l with
        | nil => exact absurd (List.cons.inj heq).1 (by decide)
        | cons x l =>
            obtain ⟨rfl, rfl⟩ := List.cons.inj heq
            exact Body.line (isLine_space_iff.mp hline) hrest
  · intro h
    cases h with
    | last n => exact Body.last (n + 1)
    | line hline hrest => exact Body.line (isLine_space_iff.mpr hline) hrest

theorem body_newline_iff {b : List UInt8} : Body (newline :: b) ↔ Body b := by
  have h : Body ([] ++ newline :: b) ↔ IsLine [] ∧ Body b := body_line_iff List.not_mem_nil
  rw [List.nil_append] at h
  rw [h]
  exact ⟨fun h => h.2, fun h => ⟨.inl ⟨0, rfl⟩, h⟩⟩

theorem body_record_iff (r : Record) {b : List UInt8} : Body (r.bytes ++ b) ↔ Body b := by
  rw [r.bytes_append, body_line_iff r.newline_not_mem_line]
  exact ⟨fun h => h.2, fun h => ⟨.inr ⟨0, r, rfl⟩, h⟩⟩

/-- **Blank bytes in front do not matter.** -/
theorem body_blank_iff {p b : List UInt8} (hp : Blank p) : Body (p ++ b) ↔ Body b := by
  induction p with
  | nil => rfl
  | cons x p ih =>
      have hrest := ih fun y hy => hp y (List.mem_cons_of_mem x hy)
      rcases hp x List.mem_cons_self with rfl | rfl
      · rw [List.cons_append, body_space_iff, hrest]
      · rw [List.cons_append, body_newline_iff, hrest]

theorem blank_spaces (n : ℕ) : Blank (spaces n) := fun _ hb => .inl (List.eq_of_mem_replicate hb)

theorem body_spaces_iff (n : ℕ) {b : List UInt8} : Body (spaces n ++ b) ↔ Body b :=
  body_blank_iff (blank_spaces n)

theorem Blank.body {p : List UInt8} (hp : Blank p) : Body p := by
  have h := (body_blank_iff (b := []) hp).mpr Body.nil
  rwa [List.append_nil] at h

/-- **A body in front does not matter.** -/
theorem Body.append_iff {p b : List UInt8} (hp : Body p) : Body (p ++ b) ↔ Body b := by
  induction hp with
  | last n => exact body_spaces_iff n
  | line hline hrest ih =>
      rw [List.append_assoc, List.cons_append, body_line_iff hline.newline_not_mem, ih]
      exact ⟨fun h => h.2, fun h => ⟨hline, h⟩⟩

/-- What ends a line can be cut off in front, and what is cut off is a body. -/
theorem Body.split {p : List UInt8} (hp : EndsLine p) : ∀ {b : List UInt8}, Body (p ++ b) →
    Body p ∧ Body b := by
  induction hlen : p.length using Nat.strongRecOn generalizing p with
  | ind n ih =>
      intro b h
      by_cases hmem : newline ∈ p
      · obtain ⟨l, q, rfl, hl⟩ := List.eq_append_cons_of_mem hmem
        have hq : EndsLine q := by
          have hdrop := hp.drop (l ++ [newline]).length
          rwa [List.append_cons l newline q, List.drop_left] at hdrop
        rw [List.append_assoc, List.cons_append, body_line_iff hl] at h
        have hlt : q.length < n := by
          rw [← hlen, List.length_append, List.length_cons]
          omega
        obtain ⟨h1, h2⟩ := ih q.length hlt hq rfl h.2
        exact ⟨Body.line h.1 h1, h2⟩
      · rcases hp with rfl | ⟨l, rfl⟩
        · exact ⟨Body.nil, h⟩
        · exact absurd (by simp) hmem

theorem Body.openLine {b : List UInt8} (h : Body b) : OpenLine b := by
  induction h with
  | last n => exact ⟨[], n, rfl, .inl rfl⟩
  | line _ _ ih =>
      rename_i l rest _ _
      have hends : EndsLine (l ++ [newline]) := .inr ⟨l, rfl⟩
      rw [List.append_cons]
      exact hends.append_openLine ih

theorem Body.nul_not_mem {b : List UInt8} (h : Body b) : 0 ∉ b := by
  have hspaces : ∀ n, (0 : UInt8) ∉ spaces n := not_mem_spaces (by decide)
  induction h with
  | last n => exact hspaces n
  | line hline _ ih =>
      rw [List.mem_append, List.mem_cons, not_or, not_or]
      refine ⟨?_, by decide, ih⟩
      rcases hline with ⟨n, rfl⟩ | ⟨n, r, rfl⟩
      · exact hspaces n
      · have hr := r.nul_not_mem_bytes
        rw [Record.bytes_eq, List.mem_append, not_or] at hr
        rw [List.mem_append, not_or]
        exact ⟨hspaces n, hr.1⟩

/-- A body starts with blank bytes and then, if anything follows, with a record. -/
theorem Body.front {b : List UInt8} (h : Body b) :
    ∃ p t, b = p ++ t ∧ Blank p ∧ (t = [] ∨ ∃ r rest, t = Record.bytes r ++ rest) := by
  induction h with
  | last n => exact ⟨spaces n, [], (List.append_nil _).symm, blank_spaces n, .inl rfl⟩
  | line hline hrest ih =>
      rename_i l rest
      rcases hline with ⟨n, rfl⟩ | ⟨n, r, rfl⟩
      · obtain ⟨p, t, rfl, hp, ht⟩ := ih
        refine ⟨spaces n ++ newline :: p, t, by simp, ?_, ht⟩
        intro x hx
        rcases List.mem_append.mp hx with hx | hx
        · exact blank_spaces n x hx
        · rcases List.mem_cons.mp hx with rfl | hx
          · exact .inr rfl
          · exact hp x hx
      · refine ⟨spaces n, r.bytes ++ rest, ?_, blank_spaces n, .inr ⟨r, rest, rfl⟩⟩
        rw [r.bytes_append, List.append_assoc]

theorem Blank.isspace {p : List UInt8} (hp : Blank p) : ∀ b ∈ p, CString.isspace b = true := by
  intro b hb
  rcases hp b hb with rfl | rfl
  · rfl
  · rfl

/-- The header read skips the blank bytes in front of a body and nothing else. -/
theorem Body.dropWhile {b : List UInt8} (h : Body b) :
    b = b.takeWhile isspace ++ b.dropWhile isspace ∧ Blank (b.takeWhile isspace) ∧
      (b.dropWhile isspace = [] ∨ ∃ r rest, b.dropWhile isspace = Record.bytes r ++ rest) := by
  obtain ⟨p, t, rfl, hp, ht⟩ := h.front
  have hstop : ∀ {r : Record} {rest}, t = r.bytes ++ rest →
      t.dropWhile isspace = t ∧ t.takeWhile isspace = [] := by
    rintro r rest rfl
    obtain ⟨l, hl⟩ := r.line_eq_cons
    rw [r.bytes_append, hl, List.cons_append]
    exact ⟨List.dropWhile_cons_of_neg (by decide), List.takeWhile_cons_of_neg (by decide)⟩
  have hcut : (p ++ t).takeWhile isspace = p ∧ (p ++ t).dropWhile isspace = t := by
    rw [List.takeWhile_append_of_pos hp.isspace, List.dropWhile_append_of_pos hp.isspace]
    rcases ht with rfl | ⟨r, rest, hr⟩
    · exact ⟨List.append_nil p, rfl⟩
    · obtain ⟨h1, h2⟩ := hstop hr
      rw [h1, h2, List.append_nil]
      exact ⟨rfl, rfl⟩
  rw [hcut.1, hcut.2]
  exact ⟨rfl, hp, ht⟩

/-! ## Records at offsets -/

/-- The record is complete in the text at the offset, behind spaces only on its line. -/
def RecordAt (s : List UInt8) (o : ℕ) (r : Record) : Prop :=
  ∃ front k rest, EndsLine front ∧ front.length + k = o ∧
    s = front ++ (spaces k ++ (r.bytes ++ rest))

/-- A record at an offset starts there with a bracket. -/
theorem RecordAt.drop_eq {s : List UInt8} {o : ℕ} {r : Record} (h : RecordAt s o r) :
    ∃ rest, s.drop o = r.bytes ++ rest := by
  obtain ⟨front, k, rest, -, rfl, rfl⟩ := h
  refine ⟨rest, ?_⟩
  rw [← List.drop_drop, List.drop_left]
  exact drop_spaces_append k 0 _

theorem RecordAt.getElem? {s : List UInt8} {o : ℕ} {r : Record} (h : RecordAt s o r) :
    s[o]? = some 91 := by
  obtain ⟨rest, hrest⟩ := h.drop_eq
  obtain ⟨l, hl⟩ := r.line_eq_cons
  have hhead : (s.drop o).head? = some 91 := by
    rw [hrest, r.bytes_append, hl]
    rfl
  rwa [List.head?_drop] at hhead

/-- No record starts in blank bytes. -/
theorem RecordAt.le_of_blank {s : List UInt8} {o j : ℕ} {r : Record} (h : RecordAt s o r)
    (hblank : Blank (s.take j)) : j ≤ o := by
  by_contra hlt
  have hget := h.getElem?
  rw [← List.getElem?_take_of_lt (by omega : o < j)] at hget
  rcases hblank 91 (List.mem_of_getElem? hget) with hb | hb
  · exact absurd hb (by decide)
  · exact absurd hb (by decide)

/-- What stands before the offset can be cut off in part. -/
theorem RecordAt.drop {s : List UInt8} {o j : ℕ} {r : Record} (h : RecordAt s o r) (hj : j ≤ o) :
    RecordAt (s.drop j) (o - j) r := by
  obtain ⟨front, k, rest, hfront, rfl, rfl⟩ := h
  by_cases hle : j ≤ front.length
  · refine ⟨front.drop j, k, rest, hfront.drop j, ?_, List.drop_append_of_le_length hle⟩
    rw [List.length_drop]
    omega
  · obtain ⟨i, rfl⟩ := Nat.exists_eq_add_of_le (by omega : front.length ≤ j)
    obtain ⟨n, rfl⟩ := Nat.exists_eq_add_of_le (by omega : i ≤ k)
    refine ⟨[], n, rest, .inl rfl, by simp; omega, ?_⟩
    rw [← List.drop_drop, List.drop_left]
    exact drop_spaces_append i n _

/-- A text that leaves its last line open can be put in front. -/
theorem RecordAt.append_left {p s : List UInt8} {o : ℕ} {r : Record} (hp : OpenLine p)
    (h : RecordAt s o r) : RecordAt (p ++ s) (p.length + o) r := by
  obtain ⟨q, j, rfl, hq⟩ := hp
  obtain ⟨front, k, rest, hfront, rfl, rfl⟩ := h
  rcases hfront with rfl | ⟨l, rfl⟩
  · refine ⟨q, j + k, rest, hq, ?_, ?_⟩
    · rw [List.length_append, length_spaces, List.length_nil]
      omega
    · rw [List.nil_append, List.append_assoc, spaces, spaces, spaces,
        ← List.replicate_append_replicate, List.append_assoc]
  · refine ⟨(q ++ spaces j) ++ (l ++ [newline]), k, rest, .inr ⟨_, (List.append_assoc _ _ _).symm⟩,
      ?_, by simp only [List.append_assoc]⟩
    rw [@List.length_append _ _ (l ++ [newline])]
    omega

theorem RecordAt.append_right {s : List UInt8} {o : ℕ} {r : Record} (h : RecordAt s o r)
    (t : List UInt8) : RecordAt (s ++ t) o r := by
  obtain ⟨front, k, rest, hfront, rfl, rfl⟩ := h
  exact ⟨front, k, rest ++ t, hfront, rfl, by simp only [List.append_assoc]⟩

/-- A record that starts in a text with an open last line ends in it. -/
theorem RecordAt.of_append {s t : List UInt8} {o : ℕ} {r : Record} (hs : OpenLine s)
    (h : RecordAt (s ++ t) o r) (ho : o < s.length) : RecordAt s o r := by
  obtain ⟨q, j, rfl, hq⟩ := hs
  have hhead := h.getElem?
  have hoq : o < q.length := by
    by_contra hge
    -- behind `q` the text has spaces
    rw [List.getElem?_append_left ho, List.getElem?_append_right (by omega),
      spaces, List.getElem?_replicate] at hhead
    split at hhead
    · exact absurd (Option.some.inj hhead) (by decide)
    · cases hhead
  rcases hq with rfl | ⟨l, rfl⟩
  · exact absurd hoq (Nat.not_lt_zero o)
  · rw [List.length_append, List.length_singleton] at hoq
    obtain ⟨front, k, rest, hfront, rfl, heq⟩ := h
    have hlen : (front ++ spaces k).length = front.length + k := by
      rw [List.length_append, length_spaces]
    have hsplit : l ++ newline :: (spaces j ++ t) =
        (front ++ spaces k) ++ (r.line ++ newline :: rest) := by
      rw [r.bytes_append] at heq
      simpa only [List.append_assoc, List.singleton_append, List.cons_append, List.nil_append]
        using heq
    have htake : l.take (front.length + k) = front ++ spaces k := by
      have h1 := congrArg (List.take (front.length + k)) hsplit
      rw [List.take_append_of_le_length (by omega), ← hlen, List.take_left] at h1
      rw [← hlen]
      exact h1
    have hdrop : l.drop (front.length + k) ++ newline :: (spaces j ++ t) =
        r.line ++ newline :: rest := by
      have h1 := congrArg (List.drop (front.length + k)) hsplit
      rw [List.drop_append_of_le_length (by omega), ← hlen, List.drop_left] at h1
      rw [← hlen]
      exact h1
    obtain ⟨u, hu, -⟩ := first_newline r.newline_not_mem_line hdrop
    refine ⟨front, k, u ++ spaces j, hfront, rfl, ?_⟩
    calc l ++ [newline] ++ spaces j
        = (l.take (front.length + k) ++ l.drop (front.length + k)) ++ [newline] ++ spaces j := by
          rw [List.take_append_drop]
      _ = (front ++ spaces k) ++ (l.drop (front.length + k) ++ [newline]) ++ spaces j := by
          rw [htake]
          simp only [List.append_assoc]
      _ = front ++ (spaces k ++ (r.bytes ++ (u ++ spaces j))) := by
          rw [hu, r.bytes_append]
          simp only [List.append_assoc, List.cons_append]

/-- No record starts inside another one. -/
theorem not_recordAt_inside (r : Record) (s : List UInt8) {o : ℕ} {old : Record} (hpos : 0 < o)
    (ho : o < r.bytes.length) : ¬ RecordAt (r.bytes ++ s) o old := by
  rintro ⟨front, k, rest, hfront, rfl, heq⟩
  obtain ⟨l, hl⟩ := r.line_eq_cons
  rw [Record.bytes_eq, List.length_append, List.length_singleton] at ho
  rw [r.bytes_append] at heq
  rcases hfront with rfl | ⟨front, rfl⟩
  · -- the line would start with a space
    obtain ⟨k, rfl⟩ : ∃ i, k = i + 1 := ⟨k - 1, by simp at hpos; omega⟩
    rw [hl, List.nil_append, List.cons_append] at heq
    exact absurd (List.cons.inj heq).1 (by decide)
  · -- the record would have a newline before its end
    have hsplit : front ++ newline :: (spaces k ++ (old.bytes ++ rest)) = r.line ++ newline :: s := by
      rw [heq]
      simp only [List.append_assoc, List.singleton_append]
    obtain ⟨t, ht, -⟩ := first_newline r.newline_not_mem_line hsplit
    have hlen := congrArg List.length ht
    simp only [List.length_append, List.length_cons, List.length_nil] at hlen ho
    omega

/-- A body that is not blank up to some offset has a record before it. -/
theorem Body.exists_recordAt {b : List UInt8} (h : Body b) : ∀ {j : ℕ}, ¬ Blank (b.take j) →
    ∃ o r, o < j ∧ RecordAt b o r := by
  induction h with
  | last n =>
      intro j hj
      exact absurd (fun x hx => blank_spaces n x (List.mem_of_mem_take hx)) hj
  | line hline hrest ih =>
      rename_i l rest
      intro j hj
      rcases hline with ⟨n, rfl⟩ | ⟨n, r, rfl⟩
      · have hends : EndsLine (spaces n ++ [newline]) := .inr ⟨_, rfl⟩
        have hblank : Blank (spaces n ++ [newline]) := by
          intro x hx
          rcases List.mem_append.mp hx with hx | hx
          · exact blank_spaces n x hx
          · exact .inr (List.mem_singleton.mp hx)
        rw [List.append_cons] at hj ⊢
        -- a blank line has no record: the one before the offset is in the rest
        have hrest : ¬ Blank (rest.take (j - (spaces n ++ [newline]).length)) := by
          intro hb
          apply hj
          rw [List.take_append]
          intro x hx
          rcases List.mem_append.mp hx with hx | hx
          · exact hblank x (List.mem_of_mem_take hx)
          · exact hb x hx
        obtain ⟨o, r, ho, hr⟩ := ih hrest
        exact ⟨_, r, by omega, hr.append_left hends.openLine⟩
      · refine ⟨n, r, ?_, [], n, rest, .inl rfl, by simp, ?_⟩
        · -- up to the record there are spaces only
          by_contra hle
          apply hj
          intro x hx
          rw [List.append_assoc, List.take_append_of_le_length (by rw [length_spaces]; omega)] at hx
          exact blank_spaces n x (List.mem_of_mem_take hx)
        · rw [r.bytes_append, List.append_assoc, List.nil_append]

/-! ## Files -/

/-- The offset is the start of a line, or the end of the file. -/
def LineStart (file : List UInt8) (n : ℕ) : Prop :=
  ∃ front rest, file = front ++ rest ∧ front.length = n ∧ (EndsLine front ∨ rest = [])

/-- A well-formed log file with cursor `n`. -/
structure WellFormed (file : List UInt8) (n : ℕ) : Prop where
  shape : ∃ body, file = headerLine n ++ body ∧ Body body
  cursor : LineStart file n

theorem headerLine_append (n : ℕ) (s : List UInt8) :
    headerLine n ++ s = (str "current_position = " ++ decimal n) ++ newline :: s := by
  rw [headerLine, List.append_assoc, List.append_assoc, List.append_assoc, List.singleton_append]

theorem newline_not_mem_header (n : ℕ) : newline ∉ str "current_position = " ++ decimal n := by
  rw [List.mem_append, not_or]
  exact ⟨by decide, not_mem_decimal (by decide)⟩

theorem endsLine_headerLine (n : ℕ) : EndsLine (headerLine n) := .inr ⟨_, rfl⟩

/-- The header of a file is determined by the file. -/
theorem headerLine_unique {m n : ℕ} {s t : List UInt8}
    (h : headerLine m ++ s = headerLine n ++ t) : m = n ∧ s = t := by
  rw [headerLine_append, headerLine_append] at h
  obtain ⟨h1, h2⟩ := first_newline_unique (newline_not_mem_header m) (newline_not_mem_header n) h
  exact ⟨decimal_injective (List.append_cancel_left h1), h2⟩

/-- A header has no bracket. -/
theorem bracket_not_mem_headerLine (n : ℕ) : 91 ∉ headerLine n := by
  have h1 : (91 : UInt8) ∉ str "current_position = " := by decide
  have h2 : (91 : UInt8) ∉ decimal n := not_mem_decimal (by decide)
  simp only [headerLine, List.mem_append, not_or]
  exact ⟨⟨h1, h2⟩, by decide⟩

/-- A record of a file is not in its header. -/
theorem RecordAt.headerLine_le {n o : ℕ} {s : List UInt8} {r : Record}
    (h : RecordAt (headerLine n ++ s) o r) : (headerLine n).length ≤ o := by
  by_contra hlt
  have hget := h.getElem?
  rw [List.getElem?_append_left (by omega)] at hget
  exact bracket_not_mem_headerLine n (List.mem_of_getElem? hget)

end CircularLog
