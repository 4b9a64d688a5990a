/-
# Files and streams of `stdio.h`

A file is its bytes; an open stream is a file with a position.  Writing replaces what
is at the position and fills a gap behind the end with zeros.  `scanf` is interpreted
for the directives that occur: a literal byte, white space and `%ld`.
-/
import Mathlib.Algebra.Group.Int.Defs
import Mathlib.Data.Int.Basic
import Mathlib.Data.List.TakeWhile
import RouterTools.CString

namespace Stdio

open CString

/-! ## Bytes in place -/

/-- The bytes of a file after `text` is written at `pos`. -/
def overwrite (file : List UInt8) (pos : ℕ) (text : List UInt8) : List UInt8 :=
  file.take pos ++ List.replicate (pos - file.length) 0 ++ text ++ file.drop (pos + text.length)

theorem overwrite_of_le {file : List UInt8} {pos : ℕ} (h : pos ≤ file.length) (text : List UInt8) :
    overwrite file pos text = file.take pos ++ text ++ file.drop (pos + text.length) := by
  rw [overwrite, Nat.sub_eq_zero_of_le h, List.replicate_zero, List.append_nil]

theorem overwrite_zero (file text : List UInt8) :
    overwrite file 0 text = text ++ file.drop text.length := by
  rw [overwrite_of_le (Nat.zero_le _), List.take_zero, List.nil_append, Nat.zero_add]

/-- Writing behind a part of the file leaves that part. -/
theorem overwrite_append (front file : List UInt8) (pos : ℕ) (text : List UInt8) :
    overwrite (front ++ file) (front.length + pos) text = front ++ overwrite file pos text := by
  have hgap : front.length + pos - (front ++ file).length = pos - file.length := by
    rw [List.length_append]
    omega
  rw [overwrite, overwrite, hgap, List.take_length_add_append, Nat.add_assoc,
    List.drop_length_add_append]
  simp only [List.append_assoc]

/-- At the end of the file a text is appended. -/
theorem overwrite_length_eq (file text : List UInt8) :
    overwrite file file.length text = file ++ text := by
  rw [overwrite_of_le le_rfl, List.take_length, List.drop_eq_nil_of_le (by omega), List.append_nil]

theorem length_overwrite {file : List UInt8} {pos : ℕ} (h : pos ≤ file.length) (text : List UInt8) :
    (overwrite file pos text).length = max file.length (pos + text.length) := by
  rw [overwrite_of_le h]
  simp only [List.length_append, List.length_take, List.length_drop]
  omega

/-! ## Streams -/

/-- An open stream; one opened for writing only is not readable. -/
structure Stream where
  bytes : List UInt8
  pos : ℕ
  readable : Bool

/-- `fseek(stream, offset, SEEK_SET)`: a negative offset is refused. -/
def Stream.fseek (s : Stream) (offset : ℤ) : Stream :=
  if offset < 0 then s else { s with pos := offset.toNat }

/-- `ftell`. -/
def Stream.ftell (s : Stream) : ℕ := s.pos

/-- `fprintf` of a finished text, or `fputc` of its bytes. -/
def Stream.fputs (s : Stream) (text : List UInt8) : Stream :=
  { s with bytes := overwrite s.bytes s.pos text, pos := s.pos + text.length }

/-- The first `n` bytes of a text, up to its first newline. -/
def readLine : ℕ → List UInt8 → List UInt8
  | 0, _ => []
  | _ + 1, [] => []
  | n + 1, b :: s => if b = newline then [b] else b :: readLine n s

/-- `fgets(buffer, size, stream)`: the bytes read, none where it returns NULL. -/
def Stream.fgets (s : Stream) (size : ℕ) : Stream × List UInt8 :=
  if s.readable then
    let line := readLine (size - 1) (s.bytes.drop s.pos)
    ({ s with pos := s.pos + line.length }, line)
  else (s, [])

/-- `strlen` of a buffer of zeros that the given bytes were read into. -/
def strlen (bytes : List UInt8) : ℕ := (bytes.takeWhile fun b => b ≠ 0).length

@[simp] theorem fseek_natCast (s : Stream) (n : ℕ) : s.fseek (n : ℤ) = { s with pos := n } := by
  rw [Stream.fseek, if_neg (by omega), Int.toNat_natCast]

/-- A line that ends in its only newline is read to its end, if there is room. -/
theorem readLine_append {p : List UInt8} (hp : newline ∉ p) (n : ℕ) (s : List UInt8) :
    readLine n (p ++ newline :: s) = (p ++ [newline]).take n := by
  induction p generalizing n with
  | nil => cases n <;> simp [readLine]
  | cons b p ih =>
      rw [List.mem_cons, not_or] at hp
      cases n with
      | zero => rfl
      | succ n =>
          rw [List.cons_append, readLine, if_neg (Ne.symm hp.1), ih hp.2]
          rfl

/-- A last line without a newline is read to the end of the file, if there is room. -/
theorem readLine_of_not_mem {p : List UInt8} (hp : newline ∉ p) (n : ℕ) :
    readLine n p = p.take n := by
  induction p generalizing n with
  | nil => cases n <;> rfl
  | cons b p ih =>
      rw [List.mem_cons, not_or] at hp
      cases n with
      | zero => rfl
      | succ n =>
          rw [readLine, if_neg (Ne.symm hp.1), ih hp.2]
          rfl

/-! ## `scanf` -/

/-- The directives of a format. -/
inductive Directive where
  | literal (b : UInt8)
  | space
  | long

/-- A decimal digit. -/
def isDigit (b : UInt8) : Bool := 48 ≤ b && b ≤ 57

/-- The number that digits stand for. -/
def digitsValue (digits : List UInt8) : ℕ := digits.foldl (fun n d => 10 * n + (d.toNat - 48)) 0

/-- `strtol` stays within `long`. -/
def clampLong (v : ℤ) : ℤ := max (-2 ^ 63) (min v (2 ^ 63 - 1))

/-- The sign of a number, true for minus, and the input after it. -/
def scanSign : List UInt8 → Bool × List UInt8
  | 45 :: rest => (true, rest)
  | 43 :: rest => (false, rest)
  | input => (false, input)

/-- `%ld`: the value, if there are digits, and the input left.  A sign is consumed even
when no digit follows. -/
def scanLong (input : List UInt8) : Option ℤ × List UInt8 :=
  let (negative, body) := scanSign (input.dropWhile isspace)
  let digits := body.takeWhile isDigit
  if digits = [] then (none, body)
  else
    let value : ℤ := digitsValue digits
    (some (clampLong (if negative then -value else value)), body.dropWhile isDigit)

/-- The values assigned by a format, up to the first directive that fails, and the input
left. -/
def scanf : List Directive → List UInt8 → List ℤ × List UInt8
  | [], input => ([], input)
  | .literal b :: format, input =>
      match input with
      | [] => ([], [])
      | c :: rest => if c = b then scanf format rest else ([], c :: rest)
  | .space :: format, input => scanf format (input.dropWhile isspace)
  | .long :: format, input =>
      match scanLong input with
      | (none, rest) => ([], rest)
      | (some value, rest) =>
          let (values, rest) := scanf format rest
          (value :: values, rest)

/-- `fscanf`. -/
def Stream.fscanf (s : Stream) (format : List Directive) : Stream × List ℤ :=
  let input := s.bytes.drop s.pos
  let (values, rest) := scanf format input
  ({ s with pos := s.pos + (input.length - rest.length) }, values)

/-- Literal bytes are matched. -/
theorem scanf_literals (text : List UInt8) (format : List Directive) (input : List UInt8) :
    scanf (text.map .literal ++ format) (text ++ input) = scanf format input := by
  induction text with
  | nil => rfl
  | cons b text ih =>
      rw [List.map_cons, List.cons_append, List.cons_append, scanf, if_pos rfl, ih]

/-- A literal that is not there stops the scan before it. -/
theorem scanf_literal_fails {b : UInt8} {format : List Directive} {input : List UInt8}
    (h : input.head? ≠ some b) : scanf (.literal b :: format) input = ([], input) := by
  cases input with
  | nil => rfl
  | cons c rest =>
      have hcb : c ≠ b := fun heq => h (by rw [heq]; rfl)
      rw [scanf, if_neg hcb]

/-! ## Decimal texts are read back -/

theorem digitsValue_append (digits : List UInt8) (d : UInt8) :
    digitsValue (digits ++ [d]) = 10 * digitsValue digits + (d.toNat - 48) := by
  rw [digitsValue, List.foldl_append]
  rfl

theorem digit_value {d : ℕ} (h : d < 10) : (UInt8.ofNat (48 + d)).toNat - 48 = d := by
  rw [UInt8.toNat_ofNat']
  omega

/-- **The value of a decimal text** is the number. -/
theorem digitsValue_decimal (n : ℕ) : digitsValue (decimal n) = n := by
  induction n using Nat.strongRecOn with
  | ind n ih =>
      by_cases h : n < 10
      · rw [decimal_of_lt h]
        show 10 * 0 + ((UInt8.ofNat (48 + n)).toNat - 48) = n
        rw [digit_value h]
        omega
      · have hmod : n % 10 < 10 := Nat.mod_lt n (by omega)
        rw [decimal_of_le (by omega), digitsValue_append, ih (n / 10) (by omega), digit_value hmod]
        omega

theorem decimal_injective {m n : ℕ} (h : decimal m = decimal n) : m = n := by
  rw [← digitsValue_decimal m, h, digitsValue_decimal]

/-- **`%ld` reads back** a number of type `long` in front of a byte that is no digit. -/
theorem scanLong_decimal {n : ℕ} (hn : n < 2 ^ 63) {c : UInt8} (hc : isDigit c = false)
    (rest : List UInt8) : scanLong (decimal n ++ c :: rest) = (some (n : ℤ), c :: rest) := by
  have hall : ∀ b ∈ decimal n, isDigit b = true := by
    intro b hb
    obtain ⟨d, hd, rfl⟩ := mem_decimal hb
    have hdigit : ∀ d < 10, isDigit (UInt8.ofNat (48 + d)) = true := by decide
    exact hdigit d hd
  have hfront : scanSign ((decimal n ++ c :: rest).dropWhile isspace) =
      (false, decimal n ++ c :: rest) := by
    obtain ⟨b, ds, hds⟩ := List.exists_cons_of_ne_nil (decimal_ne_nil n)
    obtain ⟨d, hd, rfl⟩ := mem_decimal (b := b) (by rw [hds]; exact List.mem_cons_self)
    rw [hds, List.cons_append]
    -- the first digit is no white space and no sign
    have hspace : ∀ d < 10, isspace (UInt8.ofNat (48 + d)) = false := by decide
    have h45 : ∀ d < 10, UInt8.ofNat (48 + d) ≠ 45 := by decide
    have h43 : ∀ d < 10, UInt8.ofNat (48 + d) ≠ 43 := by decide
    rw [List.dropWhile_cons_of_neg (by rw [hspace d hd]; exact Bool.false_ne_true)]
    unfold scanSign
    split
    · rename_i heq
      exact absurd (List.cons.inj heq).1 (h45 d hd)
    · rename_i heq
      exact absurd (List.cons.inj heq).1 (h43 d hd)
    · rfl
  have htake : (decimal n ++ c :: rest).takeWhile isDigit = decimal n := by
    rw [List.takeWhile_append_of_pos hall, List.takeWhile_cons_of_neg (by simp [hc]),
      List.append_nil]
  have hdrop : (decimal n ++ c :: rest).dropWhile isDigit = c :: rest := by
    rw [List.dropWhile_append_of_pos hall, List.dropWhile_cons_of_neg (by simp [hc])]
  have hclamp : clampLong n = n := by
    unfold clampLong
    omega
  rw [scanLong, hfront]
  dsimp only
  rw [htake, hdrop, if_neg (decimal_ne_nil n), digitsValue_decimal, if_neg Bool.false_ne_true,
    hclamp]

end Stdio
