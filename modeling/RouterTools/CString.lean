/-
# C strings

A C string is the list of its bytes before the terminating NUL.  This file has the
library functions the parsers call (`isspace`, `strstr`, `strtok`, `strncpy`), in the
C locale, and the decimal text of a number that `printf` writes for `%ld`.
-/
import Mathlib.Algebra.Group.Nat.Defs
import Mathlib.Order.Basic
import RouterTools.Scan

/-- The bytes of a C string, without the terminating NUL. -/
abbrev CString := List UInt8

namespace CString

/-- The bytes of a literal. -/
def str (s : String) : CString := s.toList.map fun c => UInt8.ofNat c.toNat

/-- `' '`. -/
def space : UInt8 := 32

/-- `'\n'`. -/
def newline : UInt8 := 10

/-- A run of spaces. -/
def spaces (n : ℕ) : CString := List.replicate n space

/-- `isspace`: space, `\t`, `\n`, `\v`, `\f`, `\r`. -/
def isspace (b : UInt8) : Bool := b == 32 || (9 ≤ b && b ≤ 13)

/-- `strstr`: the text from the first occurrence on. -/
def strstr (s needle : CString) : Option CString := Scan.findSub needle s

/-- The non-NULL results of `strtok(s, delims)`, `strtok(NULL, delims)`, ... -/
def strtok (s delims : CString) : List CString := Scan.tokens (fun b => delims.contains b) s

/-- `strncpy(buffer, s, size - 1)` with the terminator set after it. -/
def copyTo (size : ℕ) (s : CString) : CString := s.take (size - 1)

/-- The text `%ld` gives for a number. -/
def decimal (n : ℕ) : CString := (Nat.toDigits 10 n).map fun c => UInt8.ofNat c.toNat

/-! ## Facts about bytes and texts -/

theorem isspace_space : isspace space = true := rfl

@[simp] theorem length_spaces (n : ℕ) : (spaces n).length = n := List.length_replicate

/-- A run of spaces has no other byte. -/
theorem not_mem_spaces {b : UInt8} (h : b ≠ space) (n : ℕ) : b ∉ spaces n :=
  fun hmem => h (List.eq_of_mem_replicate hmem)

theorem newline_not_mem_spaces (n : ℕ) : newline ∉ spaces n := not_mem_spaces (by decide) n

/-- A run of spaces less its first ones. -/
theorem drop_spaces_append (i n : ℕ) (s : CString) :
    (spaces (i + n) ++ s).drop i = spaces n ++ s := by
  have hsplit : spaces (i + n) = spaces i ++ spaces n := (List.replicate_append_replicate ..).symm
  have hlen : (spaces i).length = i := length_spaces i
  rw [hsplit, List.append_assoc]
  nth_rewrite 1 [← hlen]
  exact List.drop_left

/-- A text found by `strstr` occurs, and one that occurs is found. -/
theorem strstr_isSome_iff {s needle : CString} : (strstr s needle).isSome ↔ needle <:+: s :=
  Scan.findSub_isSome_iff

theorem strstr_eq_none_iff {s needle : CString} : strstr s needle = none ↔ ¬ needle <:+: s :=
  Scan.findSub_eq_none_iff

/-- A short text is copied whole. -/
theorem copyTo_of_le {size : ℕ} {s : CString} (h : s.length ≤ size - 1) : copyTo size s = s :=
  List.take_of_length_le h

/-! ## Decimal texts -/

theorem decimal_of_lt {n : ℕ} (h : n < 10) : decimal n = [UInt8.ofNat (48 + n)] := by
  have hdigit : ∀ d < 10, d.digitChar.toNat = 48 + d := by decide
  rw [decimal, Nat.toDigits_of_lt_base h, List.map_singleton, hdigit n h]

/-- A decimal text less its last digit is the decimal text of a tenth. -/
theorem decimal_of_le {n : ℕ} (h : 10 ≤ n) :
    decimal n = decimal (n / 10) ++ [UInt8.ofNat (48 + n % 10)] := by
  have hdigit : ∀ d < 10, d.digitChar.toNat = 48 + d := by decide
  rw [decimal, Nat.toDigits_of_base_le (by omega) h, List.map_append, List.map_singleton,
    hdigit (n % 10) (Nat.mod_lt n (by omega)), decimal]

/-- The bytes of a decimal text are digits. -/
theorem mem_decimal {n : ℕ} {b : UInt8} (h : b ∈ decimal n) : ∃ d < 10, b = UInt8.ofNat (48 + d) := by
  induction n using Nat.strongRecOn with
  | ind n ih =>
      by_cases hn : n < 10
      · rw [decimal_of_lt hn] at h
        exact ⟨n, hn, List.mem_singleton.mp h⟩
      · rw [decimal_of_le (by omega)] at h
        rcases List.mem_append.mp h with h | h
        · exact ih (n / 10) (by omega) h
        · exact ⟨n % 10, Nat.mod_lt n (by omega), List.mem_singleton.mp h⟩

/-- A byte that is no digit is not in a decimal text. -/
theorem not_mem_decimal {n : ℕ} {b : UInt8} (h : ∀ d < 10, b ≠ UInt8.ofNat (48 + d)) :
    b ∉ decimal n := by
  intro hmem
  obtain ⟨d, hd, hb⟩ := mem_decimal hmem
  exact h d hd hb

theorem decimal_ne_nil (n : ℕ) : decimal n ≠ [] := by
  rw [decimal, Ne, List.map_eq_nil_iff]
  exact Nat.toDigits_ne_nil

theorem length_decimal_le_iff {n k : ℕ} (hk : 0 < k) : (decimal n).length ≤ k ↔ n < 10 ^ k := by
  rw [decimal, List.length_map]
  exact Nat.length_toDigits_le_iff (by omega) hk

/-- Larger numbers have no fewer digits. -/
theorem length_decimal_mono {m n : ℕ} (h : m ≤ n) : (decimal m).length ≤ (decimal n).length := by
  have hpos : 0 < (decimal n).length := List.length_pos_iff.mpr (decimal_ne_nil n)
  rw [length_decimal_le_iff hpos]
  exact lt_of_le_of_lt h ((length_decimal_le_iff hpos).mp le_rfl)

end CString
