/-
# Polling for a lease

The `do`-`while` loop of `check_dhcp_leases_with_validation` scans the lease file every
five seconds until a lease of the new range is found or three minutes are over.  What
a round meets comes from outside: whether the file opens, what is in it, and what the
clock reads.  A round that cannot open the file goes on before the test of the deadline.

* `poll_eq_some` , `poll_returns` : where the loop stops;
* `Clock.finish_ge` : the clock has passed the deadline after 37 rounds;
* `lease_polling_ends_iff` : when the loop stops in time.
-/
import Mathlib.Order.Bounds.Basic
import RouterTools.LeaseScan
import RouterTools.Loop

namespace DhcpLeases

open CString IpAddress

/-! ## The source -/

/-- `max_polling_duration`. -/
def maxPollingDuration : ℤ := 180

/-- `polling_interval`. -/
def pollingInterval : ℤ := 5

/-- What a round of the loop meets: a file that does not open, or its bytes, with what
`time(NULL)` answers in the round.  The last answer is `current_time_polling`; a round
without a file asks for it after the `sleep`. -/
inductive Round where
  | missing (finish : ℤ)
  | opened (file : List UInt8) (header epoch finish : ℤ)

/-- `current_time_polling` at the end of the round. -/
def Round.finish : Round → ℤ
  | .missing finish => finish
  | .opened _ _ _ finish => finish

/-- The file opens in the round. -/
def Round.Opens : Round → Prop
  | .missing _ => False
  | .opened .. => True

/-- `start_time_polling` and the rounds that follow. -/
structure Environment where
  startTime : ℤ
  round : ℕ → Round

/-- What the loop leaves: the round it stops in, `found_ip_in_new_range`, and the tables
printed, each with the seconds since the start. -/
structure PollResult where
  round : ℕ
  found : Bool
  tables : List (ℤ × List Row)

/-- The polling loop from the round `i` on, for at most `fuel` rounds; `none` is a loop that
is still running. -/
def poll (cfg : Config) (env : Environment) : ℕ → ℕ → Bool → Option PollResult
  | 0, _, _ => none
  | fuel + 1, i, found =>
      match env.round i with
      -- `continue` skips the tests at the end of the round
      | .missing _ => poll cfg env fuel (i + 1) found
      | .opened file header epoch finish =>
          let r := scanFile cfg epoch found file
          let table := (header - env.startTime, r.2)
          if r.1 = true then some ⟨i, true, [table]⟩
          else if finish - env.startTime ≥ maxPollingDuration then some ⟨i, false, [table]⟩
          else
            match poll cfg env fuel (i + 1) r.1 with
            | none => none
            | some result => some { result with tables := table :: result.tables }

/-- The ways `check_dhcp_leases_with_validation` returns. -/
inductive Outcome where
  | invalidParameters
  | invalidStartIp
  | polled (result : PollResult)

/-- `check_dhcp_leases_with_validation`. -/
def checkDhcpLeasesWithValidation (fuel : ℕ) (configuredStartIpStr : Option CString)
    (configuredLimit : Int32) (configuredLeasetimeSeconds : ℤ) (env : Environment) :
    Option Outcome :=
  match configuredStartIpStr with
  | none => some .invalidParameters
  | some startIpStr =>
      if startIpStr.length = 0 ∨ configuredLimit ≤ 0 ∨ configuredLeasetimeSeconds ≤ 0 then
        some .invalidParameters
      else
        let cfg : Config := ⟨startIpStr, configuredLimit, configuredLeasetimeSeconds⟩
        if cfg.startIpNum = 0 then some .invalidStartIp
        else (poll cfg env fuel 0 false).map .polled

/-! ## Where the loop stops -/

/-- The round finds a lease of the new range. -/
def Finds (cfg : Config) (env : Environment) (i : ℕ) : Prop :=
  ∃ file header epoch finish, env.round i = .opened file header epoch finish ∧
    (scanFile cfg epoch false file).1 = true

/-- The round ends at or after the deadline. -/
def Expired (env : Environment) (i : ℕ) : Prop :=
  (env.round i).finish - env.startTime ≥ maxPollingDuration

/-- The loop leaves through one of its `break`s in the round. -/
def Stops (cfg : Config) (env : Environment) (i : ℕ) : Prop :=
  Finds cfg env i ∨ (env.round i).Opens ∧ Expired env i

/-- **One round of the loop** stops it, or hands on to the next round. -/
theorem poll_succ_cases (cfg : Config) (env : Environment) (fuel i : ℕ) :
    (Stops cfg env i ∧ ∃ found tables, poll cfg env (fuel + 1) i false = some ⟨i, found, tables⟩) ∨
      ¬ Stops cfg env i ∧ ∃ tables, poll cfg env (fuel + 1) i false =
        (poll cfg env fuel (i + 1) false).map fun r => { r with tables := tables ++ r.tables } := by
  rw [poll]
  cases hround : env.round i with
  | missing finish =>
      refine .inr ⟨?_, [], ?_⟩
      · rintro (⟨_, _, _, _, hopened, -⟩ | ⟨hopens, -⟩)
        · rw [hround] at hopened
          cases hopened
        · rw [hround] at hopens
          exact hopens
      · -- a missing file goes on to the next round without a look at the clock
        cases poll cfg env fuel (i + 1) false <;> rfl
  | opened file header epoch finish =>
      dsimp only
      by_cases hfound : (scanFile cfg epoch false file).1 = true
      · rw [if_pos hfound]
        exact .inl ⟨.inl ⟨file, header, epoch, finish, hround, hfound⟩, _, _, rfl⟩
      · rw [if_neg hfound]
        by_cases hexpired : finish - env.startTime ≥ maxPollingDuration
        · rw [if_pos hexpired]
          refine .inl ⟨.inr ⟨?_, ?_⟩, _, _, rfl⟩
          · rw [hround]
            trivial
          · rw [Expired, hround]
            exact hexpired
        · rw [if_neg hexpired]
          refine .inr ⟨?_, [(header - env.startTime, (scanFile cfg epoch false file).2)], ?_⟩
          · rintro (⟨_, _, _, _, hopened, hfinds⟩ | ⟨-, hover⟩)
            · rw [hround] at hopened
              cases hopened
              exact hfound hfinds
            · rw [Expired, hround] at hover
              exact hexpired hover
          · rw [Bool.not_eq_true] at hfound
            rw [hfound]
            cases poll cfg env fuel (i + 1) false <;> rfl

/-- **The loop stops** in a round that stops it, and in no later one. -/
theorem poll_eq_some {cfg : Config} {env : Environment} {fuel i : ℕ} {result : PollResult}
    (h : poll cfg env fuel i false = some result) :
    i ≤ result.round ∧ Stops cfg env result.round ∧
      ∀ k, i ≤ k → k < result.round → ¬ Stops cfg env k := by
  induction fuel generalizing i result with
  | zero => cases h
  | succ fuel ih =>
      rcases poll_succ_cases cfg env fuel i with ⟨hstops, found, tables, heq⟩ | ⟨hgoes, tables, heq⟩
      · rw [heq] at h
        cases h
        exact ⟨le_rfl, hstops, fun k hik hki => absurd hki (Nat.not_lt.mpr hik)⟩
      · rw [heq] at h
        obtain ⟨rest, hrest, rfl⟩ := Option.map_eq_some_iff.mp h
        obtain ⟨hle, hstops, hearlier⟩ := ih hrest
        refine ⟨by dsimp only; omega, hstops, fun k hik hk => ?_⟩
        rcases Nat.eq_or_lt_of_le hik with rfl | hlt
        · exact hgoes
        · exact hearlier k hlt hk

/-- The loop returns when some round stops it. -/
theorem poll_returns {cfg : Config} {env : Environment} {n i : ℕ} (h : Stops cfg env (i + n)) :
    ∃ result, poll cfg env (n + 1) i false = some result := by
  induction n generalizing i with
  | zero =>
      rcases poll_succ_cases cfg env 0 i with ⟨-, found, tables, heq⟩ | ⟨hgoes, -⟩
      · exact ⟨_, heq⟩
      · exact absurd h hgoes
  | succ n ih =>
      rcases poll_succ_cases cfg env (n + 1) i with ⟨-, found, tables, heq⟩ | ⟨-, tables, heq⟩
      · exact ⟨_, heq⟩
      · obtain ⟨result, hresult⟩ := ih (i := i + 1) (by rwa [Nat.add_assoc, Nat.add_comm 1])
        rw [heq, hresult]
        exact ⟨_, rfl⟩

/-! ## The clock -/

/-- The earliest time at which the round `i` can begin. -/
def earliest (env : Environment) : ℕ → ℤ
  | 0 => env.startTime
  | i + 1 =>
      match env.round i with
      | .missing finish => finish
      | .opened _ _ _ finish => finish + pollingInterval

/-- The clock never goes back, and a `sleep` takes at least the polling interval. -/
def Environment.Clock (env : Environment) : Prop :=
  ∀ i, match env.round i with
    | .missing finish => earliest env i + pollingInterval ≤ finish
    | .opened _ header epoch finish => earliest env i ≤ header ∧ header ≤ epoch ∧ epoch ≤ finish

/-- The rounds are at least five seconds apart. -/
theorem Environment.Clock.earliest_ge {env : Environment} (h : env.Clock) (i : ℕ) :
    env.startTime + i * pollingInterval ≤ earliest env i := by
  induction i with
  | zero => simp [earliest]
  | succ i ih =>
      have hi := h i
      cases hround : env.round i with
      | missing finish =>
          rw [hround] at hi
          rw [earliest, hround]
          simp only [pollingInterval] at *
          omega
      | opened file header epoch finish =>
          rw [hround] at hi
          rw [earliest, hround]
          simp only [pollingInterval] at *
          omega

/-- **The deadline has passed** when the 37th round ends. -/
theorem Environment.Clock.expired {env : Environment} (h : env.Clock) : Expired env 36 := by
  have hearliest := h.earliest_ge 36
  have h36 := h 36
  unfold Expired
  cases hround : env.round 36 with
  | missing finish =>
      rw [hround] at h36
      simp only [Round.finish, maxPollingDuration, pollingInterval] at *
      omega
  | opened file header epoch finish =>
      rw [hround] at h36
      simp only [Round.finish, maxPollingDuration, pollingInterval] at *
      omega

/-! ## When the loop ends in time -/

/-- The call returns from the loop, no later than a round that finds a lease of the new
range and no later than a round that ends after the deadline, within 37 rounds. -/
def EndsInTime (cfg : Config) (env : Environment) : Prop :=
  ∃ fuel result,
    checkDhcpLeasesWithValidation fuel (some cfg.startIpStr) cfg.limit cfg.leasetimeSeconds env =
      some (.polled result) ∧
    (∀ i, Finds cfg env i → result.round ≤ i) ∧ (∀ i, Expired env i → result.round ≤ i) ∧
    result.round ≤ 36

/-- The arguments that `check_dhcp_leases_with_validation` does not refuse. -/
def Config.Valid (cfg : Config) : Prop :=
  cfg.startIpStr ≠ [] ∧ 0 < cfg.limit ∧ 0 < cfg.leasetimeSeconds ∧ cfg.startIpNum ≠ 0

theorem Config.Valid.check {cfg : Config} (h : cfg.Valid) (fuel : ℕ) (env : Environment) :
    checkDhcpLeasesWithValidation fuel (some cfg.startIpStr) cfg.limit cfg.leasetimeSeconds env =
      (poll cfg env fuel 0 false).map .polled := by
  obtain ⟨hne, hlimit, hlease, hnum⟩ := h
  have hgood : ¬ (cfg.startIpStr.length = 0 ∨ cfg.limit ≤ 0 ∨ cfg.leasetimeSeconds ≤ 0) := by
    rintro (hlen | hle | hle)
    · exact hne (List.length_eq_zero_iff.mp hlen)
    · exact absurd hle (Int32.not_le.mpr hlimit)
    · omega
  rw [checkDhcpLeasesWithValidation, if_neg hgood]
  exact if_neg hnum

/-- **When polling ends in time.**  Some round within the first 37 is the first to end
after the deadline; the loop ends in time if and only if the file opens in that round, or
that round or an earlier one finds a lease of the new range. -/
theorem lease_polling_ends_iff {cfg : Config} (hcfg : cfg.Valid) {env : Environment}
    (hclock : env.Clock) :
    ∃ last ≤ 36, IsLeast {i | Expired env i} last ∧
      (EndsInTime cfg env ↔ (∃ i ≤ last, Finds cfg env i) ∨ (env.round last).Opens) := by
  classical
  have hex : ∃ i, Expired env i := ⟨36, hclock.expired⟩
  have hlast : IsLeast {i | Expired env i} (Nat.find hex) :=
    ⟨Nat.find_spec hex, fun i hi => Nat.find_min' hex hi⟩
  have h36 : Nat.find hex ≤ 36 := Nat.find_min' hex hclock.expired
  generalize Nat.find hex = last at hlast h36
  refine ⟨last, h36, hlast, ?_⟩
  unfold EndsInTime
  simp only [hcfg.check]
  constructor
  · rintro ⟨fuel, result, heq, -, hexpired, -⟩
    -- a loop that ends in time stops no later than the last round
    obtain ⟨polled, hpoll, hpolled⟩ := Option.map_eq_some_iff.mp heq
    rw [Outcome.polled.inj hpolled] at hpoll
    have hle : result.round ≤ last := hexpired last hlast.1
    obtain ⟨-, hstops, -⟩ := poll_eq_some hpoll
    rcases hstops with hfinds | ⟨hopens, hover⟩
    · exact .inl ⟨_, hle, hfinds⟩
    · have hround : result.round = last := le_antisymm hle (hlast.2 hover)
      exact .inr (hround ▸ hopens)
  · intro hcond
    -- under the condition some round up to the last one stops the loop
    obtain ⟨n, hn, hstops⟩ : ∃ n ≤ last, Stops cfg env n := by
      rcases hcond with ⟨i, hi, hfinds⟩ | hopens
      · exact ⟨i, hi, .inl hfinds⟩
      · exact ⟨last, le_rfl, .inr ⟨hopens, hlast.1⟩⟩
    obtain ⟨result, hpoll⟩ := poll_returns (i := 0) (n := n) (by rwa [Nat.zero_add])
    obtain ⟨-, -, hearlier⟩ := poll_eq_some hpoll
    have hfirst : ∀ i, Stops cfg env i → result.round ≤ i := by
      intro i hi
      by_contra hlt
      exact hearlier i (Nat.zero_le i) (not_le.mp hlt) hi
    have hle : result.round ≤ last := le_trans (hfirst n hstops) hn
    refine ⟨n + 1, result, by rw [hpoll]; rfl, fun i hi => hfirst i (.inl hi), ?_, by omega⟩
    exact fun i hi => le_trans hle (hlast.2 hi)

theorem sampleConfig_valid : sampleConfig.Valid := by
  refine ⟨by decide, by decide, by decide, ?_⟩
  show ipStrToLong sampleConfig.startIpStr ≠ 0
  rw [sampleConfig_start.value]
  decide

/-- A lease file that stays empty: the loop ends at the deadline. -/
theorem lease_polling_ends_empty :
    EndsInTime sampleConfig ⟨0, fun i => .opened [] (5 * i) (5 * i) (5 * i)⟩ := by
  have hclock : Environment.Clock ⟨0, fun i => .opened [] (5 * i) (5 * i) (5 * i)⟩ := by
    intro i
    refine ⟨?_, le_rfl, le_rfl⟩
    cases i with
    | zero => exact le_rfl
    | succ i =>
        simp only [earliest, pollingInterval]
        omega
  obtain ⟨last, -, -, hiff⟩ := lease_polling_ends_iff sampleConfig_valid hclock
  exact hiff.mpr (.inr trivial)

/-- A lease file that is never there: the deadline is never tested. -/
theorem missing_file_never_ends :
    ¬ ∀ cfg : Config, cfg.Valid → ∀ env : Environment, env.Clock → EndsInTime cfg env := by
  intro h
  let env : Environment := ⟨0, fun i => .missing (5 * i + 5)⟩
  have hclock : env.Clock := by
    intro i
    show earliest env i + pollingInterval ≤ 5 * i + 5
    cases i with
    | zero => decide
    | succ i =>
        simp only [earliest, env, pollingInterval]
        omega
  obtain ⟨fuel, result, heq, -⟩ := h sampleConfig sampleConfig_valid env hclock
  rw [sampleConfig_valid.check] at heq
  obtain ⟨polled, hpoll, -⟩ := Option.map_eq_some_iff.mp heq
  obtain ⟨-, hstops, -⟩ := poll_eq_some hpoll
  rcases hstops with ⟨_, _, _, _, hopened, -⟩ | ⟨hopens, -⟩
  · cases hopened
  · exact hopens

end DhcpLeases
