/-
# Reading a text with `fgets`

`while (fgets(buffer, size, stream) != NULL)` cuts what is left of a stream into
pieces: a line with its newline where it fits into the buffer, and the parts of it where
it does not.  The C string in the buffer ends at the first NUL.
-/
import Mathlib.Data.List.Infix
import RouterTools.Stdio

namespace Stdio

open CString

/-- The C string in a buffer that bytes were read into. -/
def cstr (bytes : List UInt8) : CString := bytes.takeWhile fun b => b ≠ 0

/-- The rounds of the loop, at most `fuel` of them. -/
def fgetsLoop (size : ℕ) : ℕ → List UInt8 → List (List UInt8)
  | 0, _ => []
  | fuel + 1, bytes =>
      let line := readLine (size - 1) bytes
      if line = [] then [] else line :: fgetsLoop size fuel (bytes.drop line.length)

/-- What the calls of `fgets` put into the buffer, one after another.  A call reads at
least a byte, so there are no more calls than bytes. -/
def pieces (size : ℕ) (bytes : List UInt8) : List (List UInt8) :=
  fgetsLoop size bytes.length bytes

/-- A NUL ends the string, and nothing before it does. -/
theorem cstr_append_zero {s : List UInt8} (h : 0 ∉ s) (rest : List UInt8) :
    cstr (s ++ 0 :: rest) = s := by
  have hall : ∀ b ∈ s, decide (b ≠ 0) = true := by
    intro b hb
    rw [decide_eq_true_eq]
    rintro rfl
    exact h hb
  rw [cstr, List.takeWhile_append_of_pos hall, List.takeWhile_cons_of_neg (by simp),
    List.append_nil]

theorem cstr_of_not_mem {s : List UInt8} (h : 0 ∉ s) : cstr s = s := by
  apply List.takeWhile_eq_self_iff.mpr
  intro b hb
  rw [decide_eq_true_eq]
  rintro rfl
  exact h hb

/-! ## One call -/

/-- Nothing is read only at the end of the text. -/
theorem readLine_eq_nil_iff {n : ℕ} (hn : 0 < n) {s : List UInt8} : readLine n s = [] ↔ s = [] := by
  obtain ⟨n, rfl⟩ : ∃ m, n = m + 1 := ⟨n - 1, by omega⟩
  cases s with
  | nil => simp [readLine]
  | cons b s =>
      rw [readLine]
      split_ifs <;> simp

/-- The number of rounds does not matter once it suffices. -/
theorem fgetsLoop_eq_pieces {size fuel : ℕ} {s : List UInt8} (h : s.length ≤ fuel) :
    fgetsLoop size fuel s = pieces size s := by
  -- more fuel than the text has bytes changes nothing
  have hmore : ∀ fuel k (s : List UInt8), s.length ≤ fuel →
      fgetsLoop size (fuel + k) s = fgetsLoop size fuel s := by
    intro fuel
    induction fuel with
    | zero =>
        intro k s hs
        obtain rfl := List.length_eq_zero_iff.mp (Nat.le_zero.mp hs)
        cases k with
        | zero => rfl
        | succ k =>
            have hnil : readLine (size - 1) [] = [] := by cases size - 1 <;> rfl
            simp only [List.length_nil, fgetsLoop, hnil, if_pos]
    | succ fuel ih =>
        intro k s hs
        rw [Nat.succ_add, fgetsLoop, fgetsLoop]
        by_cases hnil : readLine (size - 1) s = []
        · simp [hnil]
        · have hpos := List.length_pos_iff.mpr hnil
          rw [if_neg hnil, if_neg hnil, ih]
          rw [List.length_drop]
          omega
  obtain ⟨k, rfl⟩ := Nat.exists_eq_add_of_le h
  exact hmore s.length k s le_rfl

/-- **One round of the loop.** -/
theorem pieces_of_ne_nil {size : ℕ} (hsize : 1 < size) {s : List UInt8} (hs : s ≠ []) :
    pieces size s = readLine (size - 1) s ::
      pieces size (s.drop (readLine (size - 1) s).length) := by
  have hline : readLine (size - 1) s ≠ [] := fun h =>
    hs ((readLine_eq_nil_iff (by omega)).mp h)
  have hpos := List.length_pos_iff.mpr hline
  obtain ⟨k, hk⟩ : ∃ k, s.length = k + 1 :=
    ⟨s.length - 1, by have := List.length_pos_iff.mpr hs; omega⟩
  have hdrop : (s.drop (readLine (size - 1) s).length).length ≤ k := by
    rw [List.length_drop]
    omega
  rw [pieces, hk, fgetsLoop, if_neg hline, fgetsLoop_eq_pieces hdrop]

@[simp] theorem pieces_nil (size : ℕ) : pieces size [] = [] := rfl

/-- A line that fits into the buffer is one piece, with its newline. -/
theorem pieces_line {size : ℕ} {line : List UInt8} (hline : newline ∉ line)
    (hfit : line.length + 1 < size) (s : List UInt8) :
    pieces size (line ++ newline :: s) = (line ++ [newline]) :: pieces size s := by
  have hread : readLine (size - 1) (line ++ newline :: s) = line ++ [newline] := by
    rw [readLine_append hline]
    exact List.take_of_length_le (by simp only [List.length_append, List.length_singleton]; omega)
  have hdrop : (line ++ newline :: s).drop (line ++ [newline]).length = s := by
    rw [show line ++ newline :: s = (line ++ [newline]) ++ s by simp, List.drop_left]
  rw [pieces_of_ne_nil (by omega) (by simp), hread, hdrop]

/-- A last line without a newline is one piece if it fits. -/
theorem pieces_last {size : ℕ} {line : List UInt8} (hline : newline ∉ line)
    (hfit : line.length < size) (hne : line ≠ []) : pieces size line = [line] := by
  have hpos := List.length_pos_iff.mpr hne
  have hread : readLine (size - 1) line = line := by
    rw [readLine_of_not_mem hline]
    exact List.take_of_length_le (by omega)
  rw [pieces_of_ne_nil (by omega) hne, hread, List.drop_length, pieces_nil]

end Stdio
