/-
# Timespec arithmetic of the timer library

`timespec_add_double` and `timespec_compare` of `timer.c`.  The finite values of a
`double` are exact rationals here, and the infinities and NaN are kept; `tv_sec` and
`tv_nsec` are 64-bit integers, whose sums wrap around.  `value` reads a timespec as a
number of nanoseconds.  On normalised timespecs addition is addition of
`⌊seconds * 10^9⌋` nanoseconds as long as the result fits (`timespecAddDouble_spec`), and
comparison is comparison of values.
-/
import Mathlib.Data.Rat.Floor
import Mathlib.Tactic.Linarith
import Mathlib.Tactic.Ring
import Mathlib.Tactic.NormNum

namespace Timer

/-! ## Doubles -/

/-- A `double`: a finite number, an infinity or no number. -/
inductive Double where
  | finite (x : ℚ)
  | infinity (negative : Bool)
  | nan
  deriving DecidableEq, Repr

/-- `seconds <= 0`; a comparison with a NaN is false. -/
def Double.NonPos : Double → Prop
  | .finite x => x ≤ 0
  | .infinity negative => negative = true
  | .nan => False

instance : DecidablePred Double.NonPos
  | .finite x => inferInstanceAs (Decidable (x ≤ 0))
  | .infinity negative => inferInstanceAs (Decidable (negative = true))
  | .nan => inferInstanceAs (Decidable False)

/-- `floor`. -/
def Double.floor : Double → Double
  | .finite x => .finite ⌊x⌋
  | seconds => seconds

/-- `a - b`; the difference of two equal infinities is no number. -/
def Double.sub : Double → Double → Double
  | .finite x, .finite y => .finite (x - y)
  | .nan, _ => .nan
  | _, .nan => .nan
  | .infinity a, .infinity b => if a = b then .nan else .infinity a
  | .infinity a, .finite _ => .infinity a
  | .finite _, .infinity b => .infinity (!b)

/-- `seconds * 1e9`. -/
def Double.toNanoseconds : Double → Double
  | .finite x => .finite (x * 1000000000)
  | seconds => seconds

/-- The C conversion of a floating-point value to an integer type, which drops the
fractional part. -/
def truncToInt (x : ℚ) : ℤ := x.num.tdiv x.den

/-- The conversion to a 64-bit integer.  C leaves open what becomes of a value that does not
fit; the instruction of the x86-64 gives the least integer. -/
def Double.toInt64 : Double → ℤ
  | .finite x =>
      if -2 ^ 63 ≤ truncToInt x ∧ truncToInt x < 2 ^ 63 then truncToInt x else -2 ^ 63
  | _ => -2 ^ 63

/-- A sum in 64 bits. -/
def wrap64 (n : ℤ) : ℤ := n.bmod (2 ^ 64)

/-! ## The source -/

/-- `struct timespec`. -/
structure Timespec where
  tv_sec : ℤ
  tv_nsec : ℤ
  deriving DecidableEq, Repr

/-- `1e9`, the number of nanoseconds in a second. -/
@[reducible] def nsecPerSec : ℤ := 1000000000

/-- `timespec_add_double`: `ts = ts + seconds`. -/
def timespecAddDouble (ts : Timespec) (seconds : Double) : Timespec :=
  if seconds.NonPos then ts
  else
    let wholeSeconds := seconds.floor
    let fractionalSeconds := seconds.sub wholeSeconds
    let nanoseconds := fractionalSeconds.toNanoseconds.toInt64
    let sec := wrap64 (ts.tv_sec + wholeSeconds.toInt64)
    let nsec := wrap64 (ts.tv_nsec + nanoseconds)
    -- a full second of nanoseconds is carried over
    if nsec ≥ nsecPerSec then ⟨wrap64 (sec + nsec.tdiv nsecPerSec), nsec.tmod nsecPerSec⟩
    else ⟨sec, nsec⟩

/-- `timespec_compare`: negative, zero or positive as `ts1` is before, at or after
`ts2`. -/
def timespecCompare (ts1 ts2 : Timespec) : ℤ :=
  if ts1.tv_sec ≠ ts2.tv_sec then
    if ts1.tv_sec > ts2.tv_sec then 1 else -1
  else if ts1.tv_nsec > ts2.tv_nsec then 1
  else if ts1.tv_nsec < ts2.tv_nsec then -1
  else 0

/-! ## Timespecs as numbers of nanoseconds -/

/-- The point in time, in nanoseconds. -/
def Timespec.value (ts : Timespec) : ℤ := ts.tv_sec * nsecPerSec + ts.tv_nsec

/-- `tv_nsec` is a proper fraction of a second, as `clock_gettime` delivers it. -/
def Timespec.Normalised (ts : Timespec) : Prop := 0 ≤ ts.tv_nsec ∧ ts.tv_nsec < nsecPerSec

instance (ts : Timespec) : Decidable ts.Normalised := inferInstanceAs (Decidable (_ ∧ _))

/-- `tv_sec` is a 64-bit number. -/
def Timespec.InRange (ts : Timespec) : Prop := -2 ^ 63 ≤ ts.tv_sec ∧ ts.tv_sec < 2 ^ 63

instance (ts : Timespec) : Decidable ts.InRange := inferInstanceAs (Decidable (_ ∧ _))

/-- A point in time as `clock_gettime` stores one. -/
def Timespec.Valid (ts : Timespec) : Prop := ts.Normalised ∧ ts.InRange

instance (ts : Timespec) : Decidable ts.Valid := inferInstanceAs (Decidable (_ ∧ _))

/-- A clock reading. -/
abbrev ClockTime := { ts : Timespec // ts.Valid }

/-- The first time, in nanoseconds, that `tv_sec` has no room for. -/
@[reducible] def endOfTime : ℤ := 2 ^ 63 * nsecPerSec

/-- The interval is a number above zero. -/
def Double.Positive : Double → Prop
  | .finite x => 0 < x
  | _ => False

instance : DecidablePred Double.Positive
  | .finite x => inferInstanceAs (Decidable (0 < x))
  | .infinity _ => inferInstanceAs (Decidable False)
  | .nan => inferInstanceAs (Decidable False)

/-- The nanoseconds one `timespec_add_double` adds for an interval; an interval that is no
number has none. -/
def increment : Double → ℤ
  | .finite x => ⌊x * 1000000000⌋
  | _ => 0

theorem Double.positive_iff {s : Double} : s.Positive ↔ ∃ x, s = .finite x ∧ 0 < x := by
  cases s with
  | finite x => simp [Double.Positive]
  | infinity negative => simp [Double.Positive]
  | nan => simp [Double.Positive]

/-- What `timer_add` lets pass as positive is a positive number or no number. -/
theorem Double.not_nonPos_iff {s : Double} :
    ¬ s.NonPos ↔ s.Positive ∨ s = .infinity false ∨ s = .nan := by
  cases s with
  | finite x => simp [Double.NonPos, Double.Positive]
  | infinity negative => cases negative <;> simp [Double.NonPos, Double.Positive]
  | nan => simp [Double.NonPos, Double.Positive]

theorem Double.eq_of_not_positive {s : Double} (h : ¬ s.NonPos) (hpos : ¬ s.Positive) :
    s = .infinity false ∨ s = .nan :=
  (Double.not_nonPos_iff.mp h).resolve_left hpos

theorem Double.Positive.not_nonPos {s : Double} (h : s.Positive) : ¬ s.NonPos :=
  Double.not_nonPos_iff.mpr (.inl h)

/-- An interval that adds at least a nanosecond is a positive number. -/
theorem Double.positive_of_increment {s : Double} (h : 1 ≤ increment s) : s.Positive := by
  cases s with
  | finite x =>
      have hx : (1 : ℚ) ≤ x * 1000000000 := by exact_mod_cast Int.le_floor.mp h
      show 0 < x
      linarith
  | infinity negative => exact absurd h (by simp [increment])
  | nan => exact absurd h (by simp [increment])

theorem increment_nonneg {s : Double} (h : s.Positive) : 0 ≤ increment s := by
  obtain ⟨x, rfl, hx⟩ := Double.positive_iff.mp h
  exact Int.floor_nonneg.mpr (by positivity)

/-! ## Numbers that fit -/

theorem wrap64_of_bounds {n : ℤ} (h : -2 ^ 63 ≤ n) (h' : n < 2 ^ 63) : wrap64 n = n :=
  Int.bmod_eq_of_le (by omega) (by omega)

theorem wrap64_bounds (n : ℤ) : -2 ^ 63 ≤ wrap64 n ∧ wrap64 n < 2 ^ 63 := by
  have h1 := Int.le_bmod (x := n) (m := 2 ^ 64) (by norm_num)
  have h2 := Int.bmod_lt (x := n) (m := 2 ^ 64) (by norm_num)
  unfold wrap64
  omega

/-- Truncation of a nonnegative number is its floor. -/
theorem truncToInt_of_nonneg {x : ℚ} (hx : 0 ≤ x) : truncToInt x = ⌊x⌋ := by
  have hnum : 0 ≤ x.num := Rat.num_nonneg.mpr hx
  rw [truncToInt, Int.tdiv_eq_ediv_of_nonneg hnum]
  exact (Rat.floor_def x).symm

/-- The conversion of a nonnegative number. -/
theorem toInt64_finite {x : ℚ} (hx : 0 ≤ x) :
    (Double.finite x).toInt64 = if ⌊x⌋ < 2 ^ 63 then ⌊x⌋ else -2 ^ 63 := by
  have h0 : 0 ≤ ⌊x⌋ := Int.floor_nonneg.mpr hx
  rw [Double.toInt64, truncToInt_of_nonneg hx]
  simp only [show -2 ^ 63 ≤ ⌊x⌋ by omega, true_and]

/-- The fractional part of a second is less than `10^9` nanoseconds. -/
theorem fract_nanoseconds_bounds (s : ℚ) :
    0 ≤ ⌊(s - ⌊s⌋) * 1000000000⌋ ∧ ⌊(s - ⌊s⌋) * 1000000000⌋ < nsecPerSec := by
  have h0 : 0 ≤ s - ⌊s⌋ := by linarith [Int.floor_le s]
  have h1 : s - ⌊s⌋ < 1 := by linarith [Int.lt_floor_add_one s]
  constructor
  · exact Int.floor_nonneg.mpr (by positivity)
  · rw [Int.floor_lt]
    push_cast
    linarith

/-- The increment splits into whole seconds and the nanoseconds of the fraction. -/
theorem increment_eq (s : ℚ) :
    increment (.finite s) = ⌊s⌋ * nsecPerSec + ⌊(s - ⌊s⌋) * 1000000000⌋ := by
  have hsplit : s * 1000000000 = (s - ⌊s⌋) * 1000000000 + ((⌊s⌋ * nsecPerSec : ℤ) : ℚ) := by
    push_cast
    ring
  rw [increment, hsplit, Int.floor_add_intCast]
  ring

/-! ## Addition -/

/-- `tv_nsec` once the nanoseconds of the fraction are added, before the carry. -/
def nsecSum (ts : Timespec) (seconds : ℚ) : ℤ :=
  ts.tv_nsec + truncToInt ((seconds - ⌊seconds⌋) * 1000000000)

/-- The carry of `timespec_add_double`. -/
def carrySeconds (sec nsec : ℤ) : Timespec :=
  if nsec ≥ nsecPerSec then ⟨wrap64 (sec + nsec.tdiv nsecPerSec), nsec.tmod nsecPerSec⟩
  else ⟨sec, nsec⟩

theorem fract_nonneg (seconds : ℚ) : (0 : ℚ) ≤ (seconds - ⌊seconds⌋) * 1000000000 := by
  have := Int.floor_le seconds
  exact mul_nonneg (by linarith) (by norm_num)

/-- **The sum fits into 32 bits**, and is not negative. -/
theorem nsecSum_bounds {ts : Timespec} (hts : ts.Normalised) (seconds : ℚ) :
    0 ≤ nsecSum ts seconds ∧ nsecSum ts seconds < 2 ^ 31 := by
  obtain ⟨hn0, hn1⟩ := fract_nanoseconds_bounds seconds
  obtain ⟨ht0, ht1⟩ := hts
  unfold nsecSum
  rw [truncToInt_of_nonneg (fract_nonneg seconds)]
  simp only [nsecPerSec] at hn1 ht1
  omega

/-- The sum of a positive number is what `timespec_add_double` carries over. -/
theorem timespecAddDouble_finite {ts : Timespec} (hts : ts.Normalised) {x : ℚ} (hx : 0 < x) :
    timespecAddDouble ts (.finite x) =
      carrySeconds (wrap64 (ts.tv_sec + (Double.finite ⌊x⌋).toInt64)) (nsecSum ts x) := by
  have hnot : ¬ (Double.finite x).NonPos := not_le.mpr hx
  obtain ⟨h0, h32⟩ := nsecSum_bounds hts x
  obtain ⟨hn0, hn1⟩ := fract_nanoseconds_bounds x
  -- the nanoseconds of a fraction fit
  have hnano : ((Double.finite x).sub (Double.finite x).floor).toNanoseconds.toInt64 =
      truncToInt ((x - ⌊x⌋) * 1000000000) := by
    show (Double.finite ((x - ⌊x⌋) * 1000000000)).toInt64 = _
    rw [toInt64_finite (fract_nonneg x), truncToInt_of_nonneg (fract_nonneg x), if_pos]
    simp only [nsecPerSec] at hn1
    omega
  have hsum : wrap64 (ts.tv_nsec + truncToInt ((x - ⌊x⌋) * 1000000000)) = nsecSum ts x :=
    wrap64_of_bounds (by unfold nsecSum at h0; omega) (by unfold nsecSum at h32; omega)
  rw [timespecAddDouble, if_neg hnot]
  simp only [hnano, hsum]
  rfl

/-- **A sum is a valid time again**, whether it has room or not. -/
theorem timespecAddDouble_valid {ts : Timespec} (hts : ts.Valid) {seconds : Double}
    (hpos : seconds.Positive) : (timespecAddDouble ts seconds).Valid := by
  obtain ⟨x, rfl, hx⟩ := Double.positive_iff.mp hpos
  obtain ⟨h0, -⟩ := nsecSum_bounds hts.1 x
  rw [timespecAddDouble_finite hts.1 hx, carrySeconds]
  split_ifs with hcarry
  · refine ⟨⟨Int.tmod_nonneg _ h0, Int.tmod_lt_of_pos _ (by norm_num)⟩, ?_⟩
    exact wrap64_bounds _
  · exact ⟨⟨h0, not_le.mp hcarry⟩, wrap64_bounds _⟩

/-- The interval and the sum have room in `tv_sec`. -/
def AddFits (ts : Timespec) (seconds : Double) : Prop :=
  increment seconds < endOfTime ∧ ts.value + increment seconds < endOfTime

instance (ts : Timespec) (seconds : Double) : Decidable (AddFits ts seconds) :=
  inferInstanceAs (Decidable (_ ∧ _))

/-- Where it fits, the sum is the sum of the parts. -/
theorem timespecAddDouble_of_fits {ts : Timespec} (hts : ts.Valid) {x : ℚ} (hx : 0 < x)
    (hfit : AddFits ts (.finite x)) :
    timespecAddDouble ts (.finite x) = carrySeconds (ts.tv_sec + ⌊x⌋) (nsecSum ts x) := by
  obtain ⟨⟨ht0, ht1⟩, hlo, hhi⟩ := hts
  obtain ⟨hinc, hsum⟩ := hfit
  obtain ⟨hn0, hn1⟩ := fract_nanoseconds_bounds x
  rw [increment_eq] at hinc hsum
  have hw : 0 ≤ ⌊x⌋ := Int.floor_nonneg.mpr hx.le
  simp only [Timespec.value, nsecPerSec, endOfTime] at hinc hsum ht1 hn1
  have hcast : (Double.finite (⌊x⌋ : ℤ)).toInt64 = ⌊x⌋ := by
    rw [toInt64_finite (by exact_mod_cast hw), Int.floor_intCast, if_pos (by omega)]
  rw [timespecAddDouble_finite ⟨ht0, ht1⟩ hx, hcast, wrap64_of_bounds (by omega) (by omega)]

/-- **Addition is exact and stays normalised**, as long as the sum has room. -/
theorem timespecAddDouble_spec {ts : Timespec} (hts : ts.Valid) {seconds : Double}
    (hpos : seconds.Positive) (hfit : AddFits ts seconds) :
    (timespecAddDouble ts seconds).Valid ∧
      (timespecAddDouble ts seconds).value = ts.value + increment seconds := by
  obtain ⟨x, rfl, hx⟩ := Double.positive_iff.mp hpos
  obtain ⟨hn0, hn1⟩ := fract_nanoseconds_bounds x
  rw [timespecAddDouble_of_fits hts hx hfit]
  obtain ⟨⟨ht0, ht1⟩, hlo, hhi⟩ := hts
  obtain ⟨hinc, hsum⟩ := hfit
  rw [increment_eq] at hsum ⊢
  have hw : 0 ≤ ⌊x⌋ := Int.floor_nonneg.mpr hx.le
  rw [nsecSum, truncToInt_of_nonneg (fract_nonneg x)]
  generalize ⌊(x - ⌊x⌋) * 1000000000⌋ = n at hn0 hn1 hsum ⊢
  generalize ⌊x⌋ = w at hw hsum ⊢
  simp only [nsecPerSec, Timespec.value, endOfTime] at *
  rw [carrySeconds]
  by_cases hcarry : ts.tv_nsec + n ≥ nsecPerSec
  · simp only [nsecPerSec] at hcarry
    have hone : (ts.tv_nsec + n) / 1000000000 = 1 := by omega
    rw [if_pos hcarry, Int.tdiv_eq_ediv_of_nonneg (by omega), Int.tmod_eq_emod_of_nonneg (by omega),
      hone, wrap64_of_bounds (by omega) (by omega)]
    simp only [Timespec.Valid, Timespec.Normalised, Timespec.InRange, nsecPerSec]
    omega
  · simp only [nsecPerSec] at hcarry
    rw [if_neg hcarry]
    simp only [Timespec.Valid, Timespec.Normalised, Timespec.InRange, nsecPerSec]
    omega

/-! ## Adding what is no number -/

/-- Both fields moved by half their range. -/
def Timespec.shift (ts : Timespec) : Timespec :=
  ⟨wrap64 (ts.tv_sec - 2 ^ 63), wrap64 (ts.tv_nsec - 2 ^ 63)⟩

/-- **No number is added** as the least integer, to both fields. -/
theorem timespecAddDouble_not_finite {ts : Timespec} {seconds : Double}
    (hs : seconds = .infinity false ∨ seconds = .nan) (hcarry : ts.shift.tv_nsec < nsecPerSec) :
    timespecAddDouble ts seconds = ts.shift := by
  have hnot : ¬ nsecPerSec ≤ wrap64 (ts.tv_nsec + -2 ^ 63) := not_le.mpr hcarry
  rcases hs with rfl | rfl
  · rw [timespecAddDouble, if_neg (by decide)]
    exact if_neg hnot
  · rw [timespecAddDouble, if_neg (by decide)]
    exact if_neg hnot

/-- A valid time moved once has a negative `tv_nsec`. -/
theorem Timespec.Valid.shift_nsec {ts : Timespec} (h : ts.Valid) : ts.shift.tv_nsec < 0 := by
  obtain ⟨⟨h0, h1⟩, -⟩ := h
  show wrap64 (ts.tv_nsec - 2 ^ 63) < 0
  simp only [nsecPerSec] at h1
  rw [wrap64_of_bounds (by omega) (by omega)]
  omega

/-- Moved twice it is the same again. -/
theorem Timespec.Valid.shift_shift {ts : Timespec} (h : ts.Valid) : ts.shift.shift = ts := by
  have htwice : ∀ n : ℤ, -2 ^ 63 ≤ n → n < 2 ^ 63 → wrap64 (wrap64 (n - 2 ^ 63) - 2 ^ 63) = n := by
    intro n hlo hhi
    by_cases hn : 0 ≤ n
    · rw [wrap64_of_bounds (n := n - 2 ^ 63) (by omega) (by omega)]
      have hback : n - 2 ^ 63 - 2 ^ 63 = n - ((2 ^ 64 : ℕ) : ℤ) := by
        push_cast
        ring
      rw [wrap64, hback, Int.sub_bmod_right]
      exact wrap64_of_bounds hlo hhi
    · have hup : wrap64 (n - 2 ^ 63) = n + 2 ^ 63 := by
        have hadd : n - 2 ^ 63 = n + 2 ^ 63 - ((2 ^ 64 : ℕ) : ℤ) := by
          push_cast
          ring
        rw [wrap64, hadd, Int.sub_bmod_right]
        exact wrap64_of_bounds (by omega) (by omega)
      rw [hup, show n + 2 ^ 63 - 2 ^ 63 = n by ring]
      exact wrap64_of_bounds hlo hhi
  obtain ⟨⟨h0, h1⟩, hlo, hhi⟩ := h
  simp only [nsecPerSec] at h1
  rw [Timespec.shift, Timespec.shift, htwice _ hlo hhi, htwice _ (by omega) (by omega)]

/-! ## The order of timespecs -/

/-- **Comparison is comparison of values.** -/
theorem timespecCompare_nonneg_iff {a b : Timespec} (ha : a.Normalised) (hb : b.Normalised) :
    0 ≤ timespecCompare a b ↔ b.value ≤ a.value := by
  simp only [Timespec.Normalised, nsecPerSec] at ha hb
  simp only [timespecCompare, Timespec.value, nsecPerSec]
  split_ifs <;> omega

/-- A normalised timespec is determined by its value. -/
theorem Timespec.Normalised.eq_of_value_eq {a b : Timespec} (ha : a.Normalised)
    (hb : b.Normalised) (h : a.value = b.value) : a = b := by
  obtain ⟨s, n⟩ := a
  obtain ⟨s', n'⟩ := b
  simp only [Timespec.Normalised, Timespec.value, nsecPerSec] at *
  have hsec : s = s' := by omega
  have hnsec : n = n' := by omega
  rw [hsec, hnsec]

/-- **The sign of a comparison** is the sign of the difference. -/
theorem sign_timespecCompare {a b : Timespec} (ha : a.Normalised) (hb : b.Normalised) :
    (timespecCompare a b).sign = (a.value - b.value).sign := by
  simp only [Timespec.Normalised, nsecPerSec] at ha hb
  simp only [timespecCompare, Timespec.value, nsecPerSec]
  split_ifs with hsec hgt hngt hnlt
  · exact (Int.sign_eq_one_of_pos (by omega)).symm
  · exact (Int.sign_eq_neg_one_of_neg (by omega)).symm
  · exact (Int.sign_eq_one_of_pos (by omega)).symm
  · exact (Int.sign_eq_neg_one_of_neg (by omega)).symm
  · have hzero : a.tv_sec * 1000000000 + a.tv_nsec - (b.tv_sec * 1000000000 + b.tv_nsec) = 0 := by
      omega
    rw [hzero]

/-- `a` is not after `b`. -/
def Timespec.NotAfter (a b : Timespec) : Prop := timespecCompare a b ≤ 0

theorem Timespec.notAfter_iff {a b : Timespec} (ha : a.Normalised) (hb : b.Normalised) :
    a.NotAfter b ↔ a.value ≤ b.value := by
  have hsign := sign_timespecCompare ha hb
  unfold Timespec.NotAfter
  rw [← Int.sign_nonpos_iff, hsign, Int.sign_nonpos_iff]
  exact sub_nonpos

/-- **Timespec arithmetic is exact.**  An addition that has room in `tv_sec` keeps a timespec
normalised and adds the nanoseconds of the interval, the sum it carries over fits into 32
bits, and from a nanosecond on it moves the time; a comparison has the sign of the
difference, and orders the normalised timespecs. -/
theorem timespec_arithmetic_exact :
    (∀ ts (x : ℚ), ts.Valid → 0 < x → AddFits ts (.finite x) →
      (timespecAddDouble ts (.finite x)).Normalised ∧
        (timespecAddDouble ts (.finite x)).value = ts.value + ⌊x * 1000000000⌋ ∧
        timespecAddDouble ts (.finite x) = carrySeconds (ts.tv_sec + ⌊x⌋) (nsecSum ts x) ∧
        (-2 ^ 31 ≤ nsecSum ts x ∧ nsecSum ts x < 2 ^ 31) ∧
        (1 / 1000000000 ≤ x → 0 < timespecCompare (timespecAddDouble ts (.finite x)) ts)) ∧
      (∀ a b, a.Normalised → b.Normalised →
        (timespecCompare a b).sign = (a.value - b.value).sign) ∧
      (∀ a b : Timespec, a.Normalised → b.Normalised → a.NotAfter b ∨ b.NotAfter a) ∧
      (∀ a b c : Timespec, a.Normalised → b.Normalised → c.Normalised →
        a.NotAfter b → b.NotAfter c → a.NotAfter c) ∧
      ∀ a b : Timespec, a.Normalised → b.Normalised → a.NotAfter b → b.NotAfter a → a = b := by
  refine ⟨?_, fun a b => sign_timespecCompare, ?_, ?_, ?_⟩
  · intro ts x hts hpos hfit
    obtain ⟨hn, hv⟩ := timespecAddDouble_spec hts (Double.positive_iff.mpr ⟨x, rfl, hpos⟩) hfit
    obtain ⟨h0, h32⟩ := nsecSum_bounds hts.1 x
    refine ⟨hn.1, hv, timespecAddDouble_of_fits hts hpos hfit, ⟨by omega, h32⟩, ?_⟩
    intro hnano
    -- a nanosecond is at least one step of the clock
    have hinc : 1 ≤ increment (.finite x) := by
      rw [increment, Int.le_floor]
      push_cast
      linarith
    have hsign := sign_timespecCompare hn.1 hts.1
    rw [← Int.sign_pos_iff, hsign, Int.sign_pos_iff, hv]
    omega
  · intro a b ha hb
    rw [Timespec.notAfter_iff ha hb, Timespec.notAfter_iff hb ha]
    exact le_total _ _
  · intro a b c ha hb hc
    rw [Timespec.notAfter_iff ha hb, Timespec.notAfter_iff hb hc, Timespec.notAfter_iff ha hc]
    exact le_trans
  · intro a b ha hb
    rw [Timespec.notAfter_iff ha hb, Timespec.notAfter_iff hb ha]
    intro hab hba
    exact ha.eq_of_value_eq hb (le_antisymm hab hba)

/-- A carry: 0.75 s and 0.5 s after the tenth second. -/
theorem timespec_arithmetic_exact_carry :
    (timespecAddDouble ⟨10, 750000000⟩ (.finite (1 / 2))).value = 11250000000 ∧
      0 < timespecCompare (timespecAddDouble ⟨10, 750000000⟩ (.finite (1 / 2))) ⟨10, 750000000⟩ := by
  have hfloor : ⌊(1 / 2 : ℚ) * 1000000000⌋ = 500000000 := by
    rw [show (1 / 2 : ℚ) * 1000000000 = (500000000 : ℤ) by norm_num, Int.floor_intCast]
  have hfit : AddFits ⟨10, 750000000⟩ (.finite (1 / 2)) := by
    rw [AddFits, increment, hfloor]
    decide
  obtain ⟨-, hv, -, -, hlater⟩ :=
    timespec_arithmetic_exact.1 ⟨10, 750000000⟩ (1 / 2) (by decide) (by norm_num) hfit
  refine ⟨?_, hlater (by norm_num)⟩
  rw [hv, hfloor]
  rfl

end Timer
