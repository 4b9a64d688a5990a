/-
# `sscanf`

The conversions `%u`, `%ld` and `%Ns` of `sscanf` on a C string, as far as the formats
of the program use them.  Every conversion skips white space first.  A number is read
as `strtoul` and `strtol` read it, in 64 bits: a sign may precede the digits, a minus
negates modulo `2^64`, and what does not fit becomes the largest value; `%u` then
stores the low 32 bits.

What is read is described on the text itself: `scanNumber_eq_some_iff` and
`scanWord_eq_some_iff` say which texts a conversion takes from the front of its input.
-/
import RouterTools.Stdio

namespace Sscanf

open CString Stdio

/-! ## Conversions -/

/-- The sign and the digits of a number, if there are digits, and the input left. -/
def scanNumber (input : CString) : Option (Bool × CString) × CString :=
  let (negative, body) := scanSign (input.dropWhile isspace)
  let digits := body.takeWhile isDigit
  if digits = [] then (none, body) else (some (negative, digits), body.dropWhile isDigit)

/-- The value `%u` stores for a sign and digits. -/
def unsignedValue (negative : Bool) (digits : CString) : UInt32 :=
  let n := digitsValue digits
  if 2 ^ 64 ≤ n then UInt32.ofNat (2 ^ 64 - 1)
  else if negative then UInt32.ofNat (2 ^ 64 - n)
  else UInt32.ofNat n

/-- The value `%ld` stores for a sign and digits. -/
def longValue (negative : Bool) (digits : CString) : ℤ :=
  clampLong (if negative then -(digitsValue digits : ℤ) else digitsValue digits)

/-- `%Ns`: the word, if there is one, and the input left. -/
def scanWord (width : ℕ) (input : CString) : Option CString × CString :=
  let body := input.dropWhile isspace
  let word := (body.takeWhile fun b => !isspace b).take width
  if word = [] then (none, body) else (some word, body.drop word.length)

/-- The directives of a format. -/
inductive Directive where
  | literal (b : UInt8)
  | space
  | unsigned
  | long
  | word (width : ℕ)

/-- What a conversion stores. -/
inductive Item where
  | unsigned (n : UInt32)
  | long (n : ℤ)
  | word (s : CString)
  deriving DecidableEq, Repr

/-- The items `sscanf` stores, up to the first directive that fails.  Where it returns
`EOF` there are none. -/
def sscanf : List Directive → CString → List Item
  | [], _ => []
  | .literal _ :: _, [] => []
  | .literal b :: format, c :: rest => if c = b then sscanf format rest else []
  | .space :: format, input => sscanf format (input.dropWhile isspace)
  | .unsigned :: format, input =>
      match scanNumber input with
      | (none, _) => []
      | (some (negative, digits), rest) =>
          .unsigned (unsignedValue negative digits) :: sscanf format rest
  | .long :: format, input =>
      match scanNumber input with
      | (none, _) => []
      | (some (negative, digits), rest) => .long (longValue negative digits) :: sscanf format rest
  | .word width :: format, input =>
      match scanWord width input with
      | (none, _) => []
      | (some word, rest) => .word word :: sscanf format rest

/-! ## The texts of numbers -/

/-- Only white space. -/
def Blank (gap : CString) : Prop := ∀ b ∈ gap, isspace b = true

/-- At least one digit, and nothing else. -/
def Digits (digits : CString) : Prop := digits ≠ [] ∧ ∀ b ∈ digits, isDigit b = true

instance (gap : CString) : Decidable (Blank gap) :=
  List.decidableBAll (fun b => isspace b = true) gap

instance (digits : CString) : Decidable (Digits digits) :=
  @instDecidableAnd _ _ _ (List.decidableBAll (fun b => isDigit b = true) digits)

/-- The text does not go on with a byte of the kind. -/
def EndsBefore (kind : UInt8 → Bool) (rest : CString) : Prop := ∀ b ∈ rest.head?, kind b = false

/-- A sign. -/
def SignText (negative : Bool) (sign : CString) : Prop :=
  if negative then sign = [45] else sign = [] ∨ sign = [43]

/-- The text of a number: white space, a sign, digits. -/
def NumberText (negative : Bool) (digits t : CString) : Prop :=
  Digits digits ∧ ∃ gap sign, Blank gap ∧ SignText negative sign ∧ t = gap ++ (sign ++ digits)

/-- The word `%Ns` takes in front of `rest`: all of one, or its first `width` bytes. -/
def WordText (width : ℕ) (word rest : CString) : Prop :=
  word ≠ [] ∧ (∀ b ∈ word, isspace b = false) ∧
    (word.length = width ∨ word.length < width ∧ EndsBefore (fun b => !isspace b) rest)

theorem isspace_of_isDigit {b : UInt8} (h : isDigit b = true) : isspace b = false := by
  simp only [isDigit, isspace, Bool.and_eq_true, decide_eq_true_eq, Bool.or_eq_false_iff,
    beq_eq_false_iff_ne, Bool.and_eq_false_iff, decide_eq_false_iff_not] at *
  refine ⟨?_, .inr ?_⟩
  · rintro rfl
    exact absurd h.1 (by decide)
  · intro hle
    have := UInt8.le_trans h.1 hle
    exact absurd this (by decide)

/-- What `takeWhile` and `dropWhile` make of bytes of the kind in front of others. -/
theorem span_of_all {kind : UInt8 → Bool} {word rest : CString}
    (hword : ∀ b ∈ word, kind b = true) (hrest : EndsBefore kind rest) :
    (word ++ rest).takeWhile kind = word ∧ (word ++ rest).dropWhile kind = rest := by
  rw [List.takeWhile_append_of_pos hword, List.dropWhile_append_of_pos hword]
  cases rest with
  | nil => simp
  | cons b rest =>
      have hb : ¬ kind b = true := by simp [hrest b rfl]
      rw [List.takeWhile_cons_of_neg hb, List.dropWhile_cons_of_neg hb, List.append_nil]
      exact ⟨rfl, rfl⟩

/-- What `dropWhile` leaves does not begin with a byte of the kind. -/
theorem endsBefore_dropWhile (kind : UInt8 → Bool) (s : CString) :
    EndsBefore kind (s.dropWhile kind) := by
  intro b hb
  have := List.head?_dropWhile_not kind s
  rw [Option.mem_def.mp hb] at this
  simpa using this

/-- Every text is white space and what is left when it is skipped. -/
theorem exists_blank_split (s : CString) : ∃ gap, Blank gap ∧ s = gap ++ s.dropWhile isspace :=
  ⟨s.takeWhile isspace, fun _ hb => List.mem_takeWhile_imp hb,
    List.takeWhile_append_dropWhile.symm⟩

/-- A sign is what stands in front of the rest. -/
theorem scanSign_split (s : CString) :
    ∃ sign, SignText (scanSign s).1 sign ∧ s = sign ++ (scanSign s).2 := by
  unfold scanSign
  split
  · exact ⟨[45], rfl, rfl⟩
  · exact ⟨[43], .inr rfl, rfl⟩
  · exact ⟨[], .inl rfl, rfl⟩

/-- A digit is no sign, so the sign in front of digits is read as such. -/
theorem scanSign_append {negative : Bool} {sign digits : CString} (hsign : SignText negative sign)
    (hdigits : Digits digits) (rest : CString) :
    scanSign (sign ++ (digits ++ rest)) = (negative, digits ++ rest) := by
  obtain ⟨hne, hall⟩ := hdigits
  obtain ⟨d, ds, rfl⟩ := List.exists_cons_of_ne_nil hne
  have hd : isDigit d = true := hall d List.mem_cons_self
  cases negative with
  | true =>
      cases hsign
      rfl
  | false =>
      rcases hsign with rfl | rfl
      · rw [List.nil_append]
        unfold scanSign
        split
        · rename_i heq
          cases heq
          exact absurd hd (by decide)
        · rename_i heq
          cases heq
          exact absurd hd (by decide)
        · rfl
      · rfl

/-- Neither a sign nor a digit is white space. -/
theorem SignText.endsBefore {negative : Bool} {sign digits : CString}
    (hsign : SignText negative sign) (hdigits : Digits digits) (rest : CString) :
    EndsBefore isspace (sign ++ (digits ++ rest)) := by
  obtain ⟨hne, hall⟩ := hdigits
  obtain ⟨d, ds, rfl⟩ := List.exists_cons_of_ne_nil hne
  have hd : isspace d = false := isspace_of_isDigit (hall d List.mem_cons_self)
  have hcases : sign = [45] ∨ sign = [] ∨ sign = [43] := by
    unfold SignText at hsign
    split_ifs at hsign
    · exact .inl hsign
    · exact .inr hsign
  rcases hcases with rfl | rfl | rfl <;> rintro b ⟨⟩
  · decide
  · exact hd
  · decide

/-- **A number is read from a text** exactly when the text begins with one. -/
theorem scanNumber_eq_some_iff {input rest : CString} {negative : Bool} {digits : CString} :
    scanNumber input = (some (negative, digits), rest) ↔
      ∃ t, NumberText negative digits t ∧ input = t ++ rest ∧ EndsBefore isDigit rest := by
  constructor
  · intro h
    unfold scanNumber at h
    -- white space, a sign, and the digits up to the first other byte
    obtain ⟨sign, hsign, hbody⟩ := scanSign_split (input.dropWhile isspace)
    obtain ⟨gap, hgap, hinput⟩ := exists_blank_split input
    rw [hbody] at hinput
    generalize scanSign (input.dropWhile isspace) = r at *
    obtain ⟨neg, body⟩ := r
    dsimp only at h hsign hinput
    split_ifs at h with hnil
    · cases h
    cases h
    refine ⟨gap ++ (sign ++ body.takeWhile isDigit), ⟨⟨hnil, ?_⟩, gap, sign, hgap, hsign, rfl⟩, ?_,
      endsBefore_dropWhile isDigit body⟩
    · exact fun b hb => List.mem_takeWhile_imp hb
    · simp only [List.append_assoc, List.takeWhile_append_dropWhile]
      exact hinput
  · rintro ⟨t, ⟨hdigits, gap, sign, hgap, hsign, rfl⟩, rfl, hrest⟩
    obtain ⟨htake, hdrop⟩ := span_of_all hdigits.2 hrest
    have hskip := (span_of_all hgap (hsign.endsBefore hdigits rest)).2
    unfold scanNumber
    rw [List.append_assoc, List.append_assoc, hskip, scanSign_append hsign hdigits]
    dsimp only
    rw [htake, hdrop, if_neg hdigits.1]

/-- A word that is read follows the white space and is as long as it can be. -/
theorem exists_of_scanWord {width : ℕ} {input word rest : CString}
    (h : scanWord width input = (some word, rest)) :
    ∃ gap, Blank gap ∧ WordText width word rest ∧ input = gap ++ (word ++ rest) := by
  unfold scanWord at h
  obtain ⟨gap, hgap, hinput⟩ := exists_blank_split input
  generalize input.dropWhile isspace = body at *
  dsimp only at h
  split_ifs at h with hnil
  · cases h
  cases h
  have hrest := endsBefore_dropWhile (fun b => !isspace b) body
  have hbody : body = (body.takeWhile fun b => !isspace b) ++ body.dropWhile fun b => !isspace b :=
    List.takeWhile_append_dropWhile.symm
  generalize hw : body.takeWhile (fun b => !isspace b) = w at *
  generalize body.dropWhile (fun b => !isspace b) = tail at *
  have hsplit : body = w.take width ++ (w.drop width ++ tail) := by
    rw [← List.append_assoc, List.take_append_drop, hbody]
  have hwall : ∀ b ∈ w, isspace b = false := by
    intro b hb
    rw [← hw] at hb
    simpa using List.mem_takeWhile_imp hb
  refine ⟨gap, hgap, ⟨hnil, fun b hb => hwall b (List.mem_of_mem_take hb), ?_⟩, ?_⟩
  rotate_left
  · rw [hinput, hsplit, List.drop_left]
  · -- the word ends at the width, or at white space before it
    rw [hsplit, List.drop_left]
    rcases le_or_gt width w.length with hle | hlt
    · exact .inl (List.length_take_of_le hle)
    · rw [List.take_of_length_le hlt.le, List.drop_eq_nil_of_le hlt.le]
      exact .inr ⟨hlt, hrest⟩

/-- A word after white space is read. -/
theorem scanWord_append {width : ℕ} {gap word rest : CString} (hgap : Blank gap)
    (hword : WordText width word rest) :
    scanWord width (gap ++ (word ++ rest)) = (some word, rest) := by
  obtain ⟨hne, hall, hend⟩ := hword
  obtain ⟨b, ws, rfl⟩ := List.exists_cons_of_ne_nil hne
  have hskip : (gap ++ (b :: ws ++ rest)).dropWhile isspace = b :: ws ++ rest :=
    (span_of_all hgap (by rintro c ⟨⟩; exact hall b List.mem_cons_self)).2
  generalize b :: ws = word at *
  have hkeep : ((word ++ rest).takeWhile fun b => !isspace b) =
      word ++ rest.takeWhile fun b => !isspace b :=
    List.takeWhile_append_of_pos fun b hb => by simp [hall b hb]
  have htake : (word ++ rest.takeWhile fun b => !isspace b).take width = word := by
    rcases hend with hlen | ⟨hlen, hrest⟩
    · rw [← hlen, List.take_left]
    · have hnil : ([] ++ rest).takeWhile (fun b => !isspace b) = [] :=
        (span_of_all (fun _ h => absurd h List.not_mem_nil) hrest).1
      rw [List.nil_append] at hnil
      rw [hnil, List.append_nil, List.take_of_length_le hlen.le]
  unfold scanWord
  rw [hskip]
  dsimp only
  rw [hkeep, htake, if_neg hne, List.drop_left]

/-- **A word is read from a text** exactly when one follows the white space. -/
theorem scanWord_eq_some_iff {width : ℕ} {input word rest : CString} :
    scanWord width input = (some word, rest) ↔
      ∃ gap, Blank gap ∧ WordText width word rest ∧ input = gap ++ (word ++ rest) := by
  constructor
  · exact exists_of_scanWord
  · rintro ⟨gap, hgap, hword, rfl⟩
    exact scanWord_append hgap hword

/-! ## Formats -/

/-- The text of a number `%u` reads as `v`. -/
def UnsignedText (t : CString) (v : UInt32) : Prop :=
  ∃ negative digits, NumberText negative digits t ∧ v = unsignedValue negative digits

/-- A format that begins with a literal stores something only where the byte is there. -/
theorem sscanf_literal_eq_cons_iff {b : UInt8} {format : List Directive} {input : CString}
    {item : Item} {items : List Item} :
    sscanf (.literal b :: format) input = item :: items ↔
      ∃ rest, input = b :: rest ∧ sscanf format rest = item :: items := by
  cases input with
  | nil => simp [sscanf]
  | cons c rest =>
      rw [sscanf]
      by_cases hc : c = b
      · subst hc
        simp
      · simp [hc]

/-- What a format that begins with `%u` stores. -/
theorem sscanf_unsigned_eq_cons_iff {format : List Directive} {input : CString} {item : Item}
    {items : List Item} :
    sscanf (.unsigned :: format) input = item :: items ↔
      ∃ t v rest, UnsignedText t v ∧ input = t ++ rest ∧ EndsBefore isDigit rest ∧
        item = .unsigned v ∧ sscanf format rest = items := by
  constructor
  · intro h
    rw [sscanf] at h
    split at h
    · cases h
    · rename_i negative digits rest heq
      cases h
      obtain ⟨t, ht, rfl, hrest⟩ := scanNumber_eq_some_iff.mp heq
      exact ⟨t, _, rest, ⟨negative, digits, ht, rfl⟩, rfl, hrest, rfl, rfl⟩
  · rintro ⟨t, v, rest, ⟨negative, digits, ht, rfl⟩, rfl, hrest, rfl, rfl⟩
    rw [sscanf, scanNumber_eq_some_iff.mpr ⟨t, ht, rfl, hrest⟩]

/-- What a format that begins with `%ld` stores. -/
theorem sscanf_long_eq_cons_iff {format : List Directive} {input : CString} {item : Item}
    {items : List Item} :
    sscanf (.long :: format) input = item :: items ↔
      ∃ t negative digits rest, NumberText negative digits t ∧ input = t ++ rest ∧
        EndsBefore isDigit rest ∧ item = .long (longValue negative digits) ∧
        sscanf format rest = items := by
  constructor
  · intro h
    rw [sscanf] at h
    split at h
    · cases h
    · rename_i negative digits rest heq
      cases h
      obtain ⟨t, ht, rfl, hrest⟩ := scanNumber_eq_some_iff.mp heq
      exact ⟨t, negative, digits, rest, ht, rfl, hrest, rfl, rfl⟩
  · rintro ⟨t, negative, digits, rest, ht, rfl, hrest, rfl, rfl⟩
    rw [sscanf, scanNumber_eq_some_iff.mpr ⟨t, ht, rfl, hrest⟩]

/-- What a format that begins with `%Ns` stores. -/
theorem sscanf_word_eq_cons_iff {width : ℕ} {format : List Directive} {input : CString}
    {item : Item} {items : List Item} :
    sscanf (.word width :: format) input = item :: items ↔
      ∃ gap word rest, Blank gap ∧ WordText width word rest ∧ input = gap ++ (word ++ rest) ∧
        item = .word word ∧ sscanf format rest = items := by
  constructor
  · intro h
    rw [sscanf] at h
    split at h
    · cases h
    · rename_i word rest heq
      cases h
      obtain ⟨gap, hgap, hword, rfl⟩ := scanWord_eq_some_iff.mp heq
      exact ⟨gap, word, rest, hgap, hword, rfl, rfl, rfl⟩
  · rintro ⟨gap, word, rest, hgap, hword, rfl, rfl, rfl⟩
    rw [sscanf, scanWord_eq_some_iff.mpr ⟨gap, hgap, hword, rfl⟩]

end Sscanf
