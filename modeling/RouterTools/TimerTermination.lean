/-
# When an update returns

`timer_add` accepts every interval that is not below or at zero, and the catch-up loop of
`timer_update` adds the interval to `next_run_time` until it exceeds the clock reading.  The
loop has a measure exactly when an addition moves the time, and its times have room in the
64-bit `tv_sec` exactly when the point it stops at does:

* `StepFits` : one `timespec_add_double` moves the time forward, to a 64-bit `tv_sec`;
* `Settles` : every addition a call makes does, and the call returns;
* `Fits` : what a call needs for that, of its arguments and the chain;
* `timer_update_terminates_iff` : along every run of a created manager the two agree.
-/
import RouterTools.TimerFiring

namespace Timer

variable {κ υ : Type*}

/-- The addition moves the time forward, by the whole increment: it leaves `tv_sec` within 64
bits. -/
def StepFits (ts : Timespec) (seconds : Double) : Prop :=
  ts.value < (timespecAddDouble ts seconds).value ∧ (timespecAddDouble ts seconds).Valid ∧
    (timespecAddDouble ts seconds).value = ts.value + increment seconds

/-- `next_run_time` after `j` rounds of the catch-up loop. -/
def TimerEntry.point (e : TimerEntry κ υ) (j : ℕ) : Timespec :=
  (fun t => timespecAddDouble t e.intervalSeconds)^[j] e.nextRunTime

/-- The catch-up loop of the entry makes the round `j`. -/
def TimerEntry.Round (now : Timespec) (e : TimerEntry κ υ) (j : ℕ) : Prop :=
  Loop.Round (fun t => decide (timespecCompare now t ≥ 0))
    (fun t => timespecAddDouble t e.intervalSeconds) e.nextRunTime j

/-- Every `timespec_add_double` of the call moves its time forward within 64 bits, and
`timer_update` returns, with the mutex released. -/
def Settles (m : TimerManager κ υ) (req : Request κ υ) : Prop :=
  match req.call with
  | .add name s callback _ res =>
      AddSucceeds m name s callback res → ∀ now ∈ res.clock, StepFits now.1 s
  | .update clock =>
      (∃ fuel m' fired, timerUpdate fuel req.self m clock = some (m', fired) ∧ m'.mutex = none) ∧
        ∀ now ∈ clock, ∀ e ∈ m.head, ∀ j, e.Round now.1 j → StepFits (e.point j) e.intervalSeconds
  | _ => True

/-- An accepted interval is a number of at least a nanosecond, and the first time after the
clock reading on the grid of the timer is within 64 bits. -/
def Fits (m : TimerManager κ υ) (req : Request κ υ) : Prop :=
  match req.call with
  | .add name s callback _ res =>
      AddSucceeds m name s callback res → ∀ now ∈ res.clock,
        (∃ x, s = .finite x ∧ 1 / 10 ^ 9 ≤ x) ∧ now.1.value + increment s < endOfTime
  | .update clock =>
      ∀ now ∈ clock, ∀ e ∈ m.head, e.nextRunTime.value ≤ now.1.value →
        nextPoint now.1.value e.nextRunTime.value (increment e.intervalSeconds) < endOfTime
  | _ => True

/-! ## One addition -/

theorem one_le_increment_iff (s : Double) : 1 ≤ increment s ↔ ∃ x, s = .finite x ∧ 1 / 10 ^ 9 ≤ x := by
  have hfinite : ∀ x : ℚ, 1 ≤ increment (.finite x) ↔ 1 / 10 ^ 9 ≤ x := by
    intro x
    rw [increment, Int.le_floor, div_le_iff₀ (by norm_num)]
    norm_num
  cases s with
  | finite x => simp only [hfinite, Double.finite.injEq, exists_eq_left']
  | infinity negative => simp [increment]
  | nan => simp [increment]

theorem Timespec.Valid.value_lt {ts : Timespec} (h : ts.Valid) : ts.value < endOfTime := by
  obtain ⟨⟨h0, h1⟩, -, hlt⟩ := h
  simp only [Timespec.value, nsecPerSec, endOfTime] at *
  omega

theorem Timespec.Normalised.value_nonneg {ts : Timespec} (h : ts.Normalised) (hsec : 0 ≤ ts.tv_sec) :
    0 ≤ ts.value := by
  simp only [Timespec.Normalised, Timespec.value, nsecPerSec] at *
  omega

/-- **One addition** to a time that is not negative fits exactly when the interval is
at least a nanosecond and the sum is within 64 bits. -/
theorem stepFits_iff {ts : Timespec} (hts : ts.Valid) (h0 : 0 ≤ ts.value) (s : Double) :
    StepFits ts s ↔ 1 ≤ increment s ∧ ts.value + increment s < endOfTime := by
  constructor
  · rintro ⟨hlt, hv, heq⟩
    have hmax := hv.value_lt
    exact ⟨by omega, by omega⟩
  · rintro ⟨hinc, hmax⟩
    obtain ⟨hv, heq⟩ := timespecAddDouble_spec hts (Double.positive_of_increment hinc)
      ⟨by omega, hmax⟩
    exact ⟨by omega, hv, heq⟩

/-! ## The rounds of the catch-up loop -/

section Rounds

variable {e : TimerEntry κ υ} {now : Timespec}

theorem TimerEntry.point_succ (e : TimerEntry κ υ) (j : ℕ) :
    e.point (j + 1) = timespecAddDouble (e.point j) e.intervalSeconds :=
  Function.iterate_succ_apply' _ _ _

/-- The loop goes on at a point that is not after the clock reading. -/
theorem cond_iff (hnow : now.Normalised) {t : Timespec} (ht : t.Valid) :
    decide (timespecCompare now t ≥ 0) = true ↔ t.value ≤ now.value := by
  rw [decide_eq_true_iff, ge_iff_le, timespecCompare_nonneg_iff hnow ht.1]

/-- **With room** the points of the rounds are the grid of the entry. -/
theorem TimerEntry.Sound.point_of_round (he : e.Sound) (hroom : e.HasRoom now)
    (hnow : now.Normalised) :
    ∀ j, e.Round now j → (e.point j).Valid ∧
      (e.point j).value = e.nextRunTime.value + j * increment e.intervalSeconds := by
  intro j
  induction j with
  | zero => exact fun _ => ⟨he.valid, by simp [TimerEntry.point]⟩
  | succ j ih =>
      intro h
      obtain ⟨hv, hval⟩ := ih fun i hi => h i (by omega)
      have hle := (cond_iff hnow hv).mp (h j (by omega))
      rw [e.point_succ]
      obtain ⟨hv', hval'⟩ := he.round hroom hv hval hle
      refine ⟨hv', ?_⟩
      rw [hval', hval]
      push_cast
      ring

/-- **If all rounds fit** the points are on the grid up to the first one after the clock
reading. -/
theorem TimerEntry.Sound.point_of_fits (he : e.Sound) (hnow : now.Normalised)
    (hfits : ∀ j, e.Round now j → StepFits (e.point j) e.intervalSeconds) :
    ∀ j : ℕ, (∀ i < j, e.nextRunTime.value + (i : ℕ) * increment e.intervalSeconds ≤ now.value) →
      (∀ i < j, decide (timespecCompare now (e.point i) ≥ 0) = true) ∧ (e.point j).Valid ∧
        (e.point j).value = e.nextRunTime.value + j * increment e.intervalSeconds := by
  intro j
  induction j with
  | zero => exact fun _ => ⟨by simp, he.valid, by simp [TimerEntry.point]⟩
  | succ j ih =>
      intro h
      obtain ⟨hconds, hv, hval⟩ := ih fun i hi => h i (by omega)
      have hcond : decide (timespecCompare now (e.point j) ≥ 0) = true := by
        rw [cond_iff hnow hv, hval]
        exact h j (by omega)
      have hround : e.Round now j := by
        intro i hi
        rcases Nat.lt_or_eq_of_le hi with hlt | rfl
        · exact hconds i hlt
        · exact hcond
      obtain ⟨-, hv', hval'⟩ := hfits j hround
      rw [e.point_succ]
      refine ⟨fun i hi => hround i (by omega), hv', ?_⟩
      rw [hval', hval]
      push_cast
      ring

/-- **All rounds fit** exactly when the point the loop stops at is within 64 bits. -/
theorem TimerEntry.Sound.rounds_fit_iff (he : e.Sound)
    (hinc : 1 ≤ increment e.intervalSeconds) (hnow : now.Normalised) :
    (∀ j, e.Round now j → StepFits (e.point j) e.intervalSeconds) ↔ e.HasRoom now := by
  constructor
  · -- the point behind the last round is a valid time
    intro hfits hdue
    obtain ⟨k, hk⟩ := Int.eq_ofNat_of_zero_le (Int.ediv_nonneg
      (by omega : 0 ≤ now.value - e.nextRunTime.value) (by omega : 0 ≤ increment e.intervalSeconds))
    have hle : (k : ℤ) * increment e.intervalSeconds ≤ now.value - e.nextRunTime.value := by
      rw [← hk]
      exact Int.ediv_mul_le _ (by omega)
    obtain ⟨-, hv, hval⟩ := he.point_of_fits hnow hfits (k + 1) fun i hi => by
      have hik : (i : ℤ) * increment e.intervalSeconds ≤ k * increment e.intervalSeconds :=
        mul_le_mul_of_nonneg_right (by omega) (by omega)
      omega
    have hmax := hv.value_lt
    rw [hval] at hmax
    rw [nextPoint, if_pos hdue, hk]
    exact_mod_cast hmax
  · intro hroom j hround
    obtain ⟨hv, hval⟩ := he.point_of_round hroom hnow j hround
    obtain ⟨hv', hval'⟩ := he.round hroom hv hval ((cond_iff hnow hv).mp (hround j le_rfl))
    exact ⟨by omega, hv', hval'⟩

end Rounds

/-! ## Calls -/

/-- The invariant of a manager whose additions fitted: the timers run at grids of at
least a nanosecond, from valid times. -/
structure TimerManager.Timed (m : TimerManager κ υ) : Prop where
  inv : m.Inv
  sound : m.Sound
  increment_pos : ∀ e ∈ m.head, 1 ≤ increment e.intervalSeconds

theorem timed_create {m : TimerManager κ υ} {mallocOk : Bool} {rc : ℤ}
    (h : timerManagerCreate mallocOk rc = some m) : m.Timed := by
  have hinv := inv_create h
  rw [head_create h] at hinv ⊢
  exact ⟨hinv, by simp [TimerManager.Sound], by simp⟩

/-- A call that fits is in range. -/
theorem Fits.inRange {m : TimerManager κ υ} {req : Request κ υ} (hboot : SinceBoot req)
    (h : Fits m req) : InRange m req := by
  obtain ⟨self, call⟩ := req
  cases call with
  | add name s callback userData res =>
      intro hadd now hnow
      obtain ⟨hns, hmax⟩ := h hadd now hnow
      have hnow0 := now.2.1.value_nonneg (hboot now hnow)
      exact ⟨Double.positive_of_increment ((one_le_increment_iff s).mpr hns), by omega, hmax⟩
  | remove => trivial
  | update => exact h
  | getSize => trivial

/-- **A call that fits keeps the invariant.** -/
theorem step_timed {fuel : ℕ} (m : TimerManager κ υ) (req : Request κ υ) (m' : TimerManager κ υ)
    (answer : Answer κ υ) (hm : m.Timed) (hboot : SinceBoot req) (hfits : Fits m req)
    (h : step fuel m req = some (m', answer)) : m'.Timed := by
  refine ⟨step_inv m req m' answer hm.inv h,
    step_sound m req m' answer hm.inv hm.sound (hfits.inRange hboot) h, ?_⟩
  obtain ⟨self, call⟩ := req
  cases step_outcome hm.inv h with
  | @added n s cb userData res now hadd hnow =>
      exact List.forall_mem_cons.mpr
        ⟨(one_le_increment_iff s).mpr (hfits hadd now hnow).1, hm.increment_pos⟩
  | refused => exact hm.increment_pos
  | removed => exact fun e he => hm.increment_pos e (mem_of_mem_remove he)
  | absent => exact hm.increment_pos
  | updated hall =>
      intro e' he'
      obtain ⟨e, he, hupd⟩ := forall₂_mem hall he'
      rw [hupd.same]
      exact hm.increment_pos e he
  | noClock => exact hm.increment_pos
  | size => exact hm.increment_pos

/-- An update of timers whose increments are at least a nanosecond returns where it has room,
with the mutex released. -/
theorem TimerManager.Timed.update_returns {m : TimerManager κ υ} (hm : m.Timed)
    (self : ThreadId) (clock : Option ClockTime)
    (hroom : ∀ now ∈ clock, ∀ e ∈ m.head, e.HasRoom now.1) :
    ∃ fuel m' fired, timerUpdate fuel self m clock = some (m', fired) ∧ m'.mutex = none := by
  cases clock with
  | none => exact ⟨0, m, [], rfl, hm.inv.unlocked⟩
  | some now =>
      obtain ⟨fuel, hfuel⟩ : ∃ fuel, ∀ fuel', fuel ≤ fuel' →
          ∃ r, updateEntries fuel' now.1 m.head = some r := exists_fuel fun e he _ =>
        (hm.sound e he).catchUp_terminates (hroom now rfl e he) now.2.1 (hm.increment_pos e he)
      obtain ⟨⟨l', fired⟩, hr⟩ := hfuel fuel le_rfl
      refine ⟨fuel, { m with head := l' }.unlock, fired, ?_, rfl⟩
      simp only [timerUpdate, TimerManager.lock_head, hr]
      rfl

/-- **A call settles exactly when it fits.** -/
theorem settles_iff_fits (m : TimerManager κ υ) (req : Request κ υ) (hm : m.Timed)
    (hboot : SinceBoot req) : Settles m req ↔ Fits m req := by
  obtain ⟨self, call⟩ := req
  cases call with
  | add name s callback userData res =>
      refine forall_congr' fun hadd => forall₂_congr fun now hnow => ?_
      have hnow0 := now.2.1.value_nonneg (hboot now hnow)
      rw [stepFits_iff now.2 hnow0, one_le_increment_iff]
  | remove name => exact Iff.rfl
  | update clock =>
      have hrounds : (∀ now ∈ clock, ∀ e ∈ m.head, ∀ j, e.Round now.1 j →
          StepFits (e.point j) e.intervalSeconds) ↔ ∀ now ∈ clock, ∀ e ∈ m.head, e.HasRoom now.1 :=
        forall₂_congr fun now _ => forall₂_congr fun e he =>
          (hm.sound e he).rounds_fit_iff (hm.increment_pos e he) now.2.1
      constructor
      · exact fun h => hrounds.mp h.2
      · exact fun h => ⟨hm.update_returns self clock h, hrounds.mpr h⟩
  | getSize => exact Iff.rfl

/-! ## Runs -/

/-- **Updates return exactly as long as the calls fit.**  Along a run of a created
manager every `timespec_add_double` moves its time forward within 64 bits and every
update returns with the mutex released, if and only if every accepted interval is at
least a nanosecond and the times the timers are advanced to are within 64 bits. -/
theorem timer_update_terminates_iff {mallocOk : Bool} {rc : ℤ} {m : TimerManager κ υ}
    (hcreate : timerManagerCreate mallocOk rc = some m) (reqs : List (Request κ υ))
    (hboot : ∀ req ∈ reqs, SinceBoot req) :
    (∀ fuel, Runs.Along (step fuel) Settles m reqs) ↔
      ∀ fuel, Runs.Along (step fuel) Fits m reqs := by
  apply forall_congr'
  intro fuel
  exact Runs.along_iff SinceBoot settles_iff_fits step_timed (timed_create hcreate) hboot

/-- A timer of a quarter of a second that an update finds late. -/
theorem timer_update_terminates_quarter :
    Runs.Along (step 20) Settles (⟨[], none, 0⟩ : TimerManager ℕ ℕ)
      [⟨0, .add (some [97]) (.finite (1 / 4)) (some 7) 5 ⟨true, true, some ⟨⟨10, 0⟩, by decide⟩⟩⟩,
        ⟨1, .update (some ⟨⟨14, 500000000⟩, by decide⟩)⟩] := by
  refine (timer_update_terminates_iff (show timerManagerCreate true 0 = some _ from rfl) _ ?_).mpr
    ?_ 20
  · intro req hreq
    simp only [List.mem_cons, List.not_mem_nil, or_false] at hreq
    rcases hreq with rfl | rfl <;> rintro now ⟨⟩ <;> decide
  · intro fuel
    refine Runs.along_cons.mpr ⟨?_, ?_⟩
    · rintro - now ⟨⟩
      exact ⟨⟨1 / 4, rfl, by norm_num⟩, by decide +kernel⟩
    · intro m₁ answer₁ hadd
      have hm₁ : step 0 (⟨[], none, 0⟩ : TimerManager ℕ ℕ)
          ⟨0, .add (some [97]) (.finite (1 / 4)) (some 7) 5 ⟨true, true, some ⟨⟨10, 0⟩, by decide⟩⟩⟩ =
          some (⟨[⟨[97], ⟨10, 250000000⟩, .finite (1 / 4), some 7, 5⟩], none, 1⟩, .added (.ok ())) := by
        decide +kernel
      cases hm₁.symm.trans hadd
      refine Runs.along_cons.mpr ⟨?_, fun _ _ _ => Runs.along_nil _⟩
      rintro now ⟨⟩ e he -
      rw [List.mem_singleton.mp he]
      decide +kernel

/-- Half a nanosecond is accepted as an interval, and the first update that finds the
timer due does not return. -/
theorem half_nanosecond_never_returns :
    ¬ ∀ m : TimerManager ℕ ℕ, Reachable m → ∀ self clock,
      ∃ fuel r, timerUpdate fuel self m clock = some r := by
  intro h
  let t0 : ClockTime := ⟨⟨10, 0⟩, by decide⟩
  let e : TimerEntry ℕ ℕ := ⟨[97], ⟨10, 0⟩, .finite (1 / 2000000000), some 7, 5⟩
  have hm : Reachable (⟨[e], none, 1⟩ : TimerManager ℕ ℕ) := by
    refine ⟨true, 0, ⟨[], none, 0⟩, 0,
      [⟨0, .add (some [97]) (.finite (1 / 2000000000)) (some 7) 5 ⟨true, true, some t0⟩⟩],
      [.added (.ok ())], rfl, ?_⟩
    decide +kernel
  obtain ⟨fuel, r, hr⟩ := h _ hm 0 (some t0)
  have he : e.Sound := ⟨by decide +kernel, by decide +kernel, by decide⟩
  have hstuck : timerUpdate fuel 0 (⟨[e], none, 1⟩ : TimerManager ℕ ℕ) (some t0) = none :=
    timerUpdate_stuck List.mem_cons_self
      (he.catchUp_diverges (by decide +kernel) (by decide)) fuel 0
  cases hstuck.symm.trans hr

end Timer
