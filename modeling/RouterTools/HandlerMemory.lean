/-
# The readers of `uci_handler.c` in memory

`check_lan_ip_config_validity` reads the lines of a pipe, and `check_dhcp_leases_with_validation`
those of a file that it opens anew in every round.  The two once more, with their streams as
blocks; the streams that `log_message` opens and closes for itself are left out.  Each stream is
closed, once; a pipe for which there is no memory is a command that does not start, and a round
with no memory for its stream is a round without a file.
-/
import RouterTools.LanCheck
import RouterTools.LeasePolling
import RouterTools.Memory

namespace HandlerMemory

open Blocks CString DhcpLeases
open LanCheck (Status readLine readLines)
open Stdio (pieces cstr)

/-- A `FILE`, which is all that is allocated: the lines that are still to be read, as `fgets` cuts
them. -/
abbrev Stream := List CString

variable {P : Type} [DecidableEq P]

/-! ## The functions of the source -/

/-- The allocator, and the budgets of the loops over the lines of a stream and of the other
loops. -/
structure Machine (P : Type) where
  allocator : Allocator P Stream
  lines : ℕ
  fuel : ℕ

variable (M : Machine P)

/-- `fopen` and `popen` of what is there to be read: NULL where there is no memory. -/
def openStream (contents : List UInt8) : Prog P Stream (Option P) :=
  malloc M.allocator ((pieces 256 contents).map cstr)

/-- `fgets`. -/
def fgets (stream : Option P) : Prog P Stream (Option CString) := do
  let unread ← read some stream
  match unread with
  | [] => return none
  | line :: rest => do
      write stream rest
      return some line

/-- `fclose` and `pclose`. -/
def fclose (stream : Option P) : Prog P Stream Unit := do
  let _ ← read some stream
  free stream

/-- `while (fgets(...) != NULL)`, with a body that may leave the loop. -/
def fgetsLoop {σ : Type} (body : CString → σ → ForInStep σ) (stream : Option P) :
    ℕ → σ → Prog P Stream σ
  | 0, _ => fail .outOfFuel
  | fuel + 1, s => do
      let line ← fgets stream
      match line with
      | none => return s
      | some line =>
          match body line s with
          | .done s => return s
          | .yield s => fgetsLoop body stream fuel s

/-- The body of the loop over the output of `ifconfig`. -/
def lanBody (line : CString) (status : Status) : ForInStep Status :=
  let status := readLine status line
  if status.ipAddr.isSome = true ∧ status.netmask.isSome = true then .done status
  else .yield status

/-- What is answered behind the loop. -/
def compareStatus (expectedIpAddr expectedNetmask : CString) (status : Status) : ℤ :=
  match status.ipAddr, status.netmask with
  | some currentIpAddr, some currentNetmask =>
      if currentIpAddr = expectedIpAddr ∧ currentNetmask = expectedNetmask then 0 else -1
  | _, _ => -1

/-- `check_lan_ip_config_validity`. -/
def checkLanIpConfigValidity (expectedIpAddr expectedNetmask : Option CString)
    (output : Option (List UInt8)) : Prog P Stream ℤ :=
  match expectedIpAddr, expectedNetmask, output with
  | some expectedIpAddr, some expectedNetmask, some text => do
      let fp ← openStream M text
      if fp.isNone then return -1
      let status ← fgetsLoop lanBody fp M.lines ⟨none, none⟩
      fclose fp
      return compareStatus expectedIpAddr expectedNetmask status
  | _, _, _ => return -1

/-- The body of the loop over the lines of a lease file: `found_ip_in_new_range`, and the rows
that are printed. -/
def leaseBody (cfg : Config) (now : ℤ) (line : CString) (s : Bool × List Row) :
    ForInStep (Bool × List Row) :=
  match scanLine line with
  | none => .yield s
  | some lease =>
      .yield (s.1 || (inRangeStr cfg.startIpNum cfg.endIpNumeric lease.ipAddrStr).2,
        s.2 ++ [leaseRow cfg now lease])

/-- The polling loop. -/
def poll (cfg : Config) (env : Environment) : ℕ → ℕ → Bool → Prog P Stream PollResult
  | 0, _, _ => fail .outOfFuel
  | fuel + 1, i, found =>
      match env.round i with
      | .missing _ => poll cfg env fuel (i + 1) found
      | .opened file header epoch finish => do
          let lf ← openStream M file
          if lf.isNone then poll cfg env fuel (i + 1) found
          else
            let r ← fgetsLoop (leaseBody cfg epoch) lf M.lines (found, [])
            fclose lf
            let table := (header - env.startTime, r.2)
            if r.1 then return ⟨i, true, [table]⟩
            else if finish - env.startTime ≥ maxPollingDuration then return ⟨i, false, [table]⟩
            else
              let result ← poll cfg env fuel (i + 1) r.1
              return { result with tables := table :: result.tables }

/-- `check_dhcp_leases_with_validation`. -/
def checkDhcpLeasesWithValidation (configuredStartIpStr : Option CString)
    (configuredLimit : Int32) (configuredLeasetimeSeconds : ℤ) (env : Environment) :
    Prog P Stream Outcome :=
  match configuredStartIpStr with
  | none => return .invalidParameters
  | some startIpStr =>
      if startIpStr.length = 0 ∨ configuredLimit ≤ 0 ∨ configuredLeasetimeSeconds ≤ 0 then
        return .invalidParameters
      else
        let cfg : Config := ⟨startIpStr, configuredLimit, configuredLeasetimeSeconds⟩
        if cfg.startIpNum = 0 then return .invalidStartIp
        else do
          let result ← poll M cfg env M.fuel 0 false
          return .polled result

/-! ## Reading line by line -/

variable {M} {m : Memory P Stream} {p : P}

theorem fclose_ok {unread : Stream} (hp : m.cells p = some unread) :
    fclose (some p) m = (.ok (), m.erase p) := by
  have hread : read some (some p) m = (.ok unread, m) := read_ok hp rfl
  rw [fclose, bind_ok hread]
  exact free_ok hp

/-- **The loop** reads the lines as `for` does, and touches no other block. -/
theorem fgetsLoop_ok {σ : Type} (body : CString → σ → ForInStep σ) (lines : List CString) :
    ∀ (s : σ) (fuel : ℕ) (m : Memory P Stream), lines.length < fuel →
      m.cells p = some lines →
      ∃ m' rest, fgetsLoop body (some p) fuel s m =
          (.ok (forIn lines s fun line s => (pure (body line s) : Id (ForInStep σ))).run, m') ∧
        m'.cells p = some rest ∧ (∀ a, a ≠ p → m'.cells a = m.cells a) ∧
        m'.answers = m.answers := by
  induction lines with
  | nil =>
      intro s fuel m hfuel hp
      obtain ⟨fuel, rfl⟩ : ∃ n, fuel = n + 1 := ⟨fuel - 1, by omega⟩
      have hread : read some (some p) m = (.ok [], m) := read_ok hp rfl
      have hget : fgets (some p) m = (.ok none, m) := by
        rw [fgets, bind_ok hread]
        rfl
      refine ⟨m, [], ?_, hp, fun _ _ => rfl, rfl⟩
      rw [fgetsLoop, bind_ok hget]
      rfl
  | cons line lines ih =>
      intro s fuel m hfuel hp
      obtain ⟨fuel, rfl⟩ : ∃ n, fuel = n + 1 := ⟨fuel - 1, by omega⟩
      rw [List.length_cons] at hfuel
      let m₁ := m.set p lines
      have hread : read some (some p) m = (.ok (line :: lines), m) := read_ok hp rfl
      have hget : fgets (some p) m = (.ok (some line), m₁) := by
        rw [fgets, bind_ok hread]
        dsimp only
        rw [bind_ok (write_ok hp _)]
        rfl
      have hp₁ : m₁.cells p = some lines := Function.update_self _ _ _
      have hothers : ∀ a, a ≠ p → m₁.cells a = m.cells a :=
        fun a ha => Function.update_of_ne ha _ _
      rw [fgetsLoop, bind_ok hget, List.forIn_cons]
      dsimp only
      cases hbody : body line s with
      | done s' => exact ⟨m₁, lines, rfl, hp₁, hothers, rfl⟩
      | yield s' =>
          obtain ⟨m', rest, hrun, hrest, hsame, href⟩ := ih s' fuel m₁ (by omega) hp₁
          exact ⟨m', rest, hrun, hrest, fun a ha => (hsame a ha).trans (hothers a ha), href⟩

/-- A stream is opened, read line by line, and closed. -/
theorem read_and_close {σ : Type} (body : CString → σ → ForInStep σ) (s : σ) {lines : List CString}
    {m₁ : Memory P Stream} {fuel : ℕ} (hfree : m.cells p = none)
    (hcells : m₁.cells = Function.update m.cells p (some lines))
    (hfuel : lines.length < fuel) :
    ∃ m₂ m₃, fgetsLoop body (some p) fuel s m₁ =
        (.ok (forIn lines s fun line s => (pure (body line s) : Id (ForInStep σ))).run, m₂) ∧
      fclose (some p) m₂ = (.ok (), m₃) ∧ m₃.cells = m.cells ∧ m₃.answers = m₁.answers := by
  have hp : m₁.cells p = some lines := by rw [hcells, Function.update_self]
  obtain ⟨m₂, rest, hrun, hrest, hsame, href⟩ := fgetsLoop_ok body lines s fuel m₁ hfuel hp
  refine ⟨m₂, m₂.erase p, hrun, fclose_ok hrest, ?_, href⟩
  funext a
  rw [Memory.erase_cells]
  by_cases ha : a = p
  · rw [ha, Function.update_self, hfree]
  · rw [Function.update_of_ne ha, hsame a ha, hcells, Function.update_of_ne ha]

theorem lanLoop_eq (lines : List CString) : ∀ status,
    (forIn lines status fun line s => (pure (lanBody line s) : Id (ForInStep Status))).run =
      readLines status lines := by
  induction lines with
  | nil => exact fun _ => rfl
  | cons line lines ih =>
      intro status
      rw [List.forIn_cons, readLines]
      by_cases hfound : (readLine status line).ipAddr.isSome = true ∧
          (readLine status line).netmask.isSome = true
      · have hbody : lanBody line status = .done (readLine status line) := if_pos hfound
        rw [hbody, if_pos hfound]
        rfl
      · have hbody : lanBody line status = .yield (readLine status line) := if_neg hfound
        rw [hbody, if_neg hfound]
        exact ih _

theorem leaseLoop_eq (cfg : Config) (now : ℤ) (lines : List CString) : ∀ found rows,
    (forIn lines (found, rows) fun line s =>
        (pure (leaseBody cfg now line s) : Id (ForInStep (Bool × List Row)))).run =
      ((scanLines cfg now found lines).1, rows ++ (scanLines cfg now found lines).2) := by
  induction lines with
  | nil =>
      intro found rows
      rw [scanLines, List.append_nil]
      rfl
  | cons line lines ih =>
      intro found rows
      rw [List.forIn_cons, scanLines]
      cases hlease : scanLine line with
      | none =>
          have hbody : leaseBody cfg now line (found, rows) = .yield (found, rows) := by
            rw [leaseBody, hlease]
          rw [hbody]
          exact ih found rows
      | some lease =>
          have hbody : leaseBody cfg now line (found, rows) =
              .yield (found || (inRangeStr cfg.startIpNum cfg.endIpNumeric lease.ipAddrStr).2,
                rows ++ [leaseRow cfg now lease]) := by
            rw [leaseBody, hlease]
          rw [hbody]
          refine (ih _ _).trans ?_
          rw [List.append_assoc, List.singleton_append]

/-! ## The check of the addresses -/

theorem compareStatus_eq (ip mask : CString) (text : List UInt8) :
    compareStatus ip mask (readLines ⟨none, none⟩ ((pieces 256 text).map cstr)) =
      LanCheck.checkLanIpConfigValidity (some ip) (some mask) (some text) := by
  unfold compareStatus LanCheck.checkLanIpConfigValidity
  dsimp only
  generalize readLines ⟨none, none⟩ ((pieces 256 text).map cstr) = status
  obtain ⟨ipAddr, netmask⟩ := status
  cases ipAddr <;> cases netmask <;> rfl

/-- How many pipes the check opens. -/
def pipes (expectedIpAddr expectedNetmask : Option CString) (output : Option (List UInt8)) : ℕ :=
  if expectedIpAddr.isSome && expectedNetmask.isSome && output.isSome then 1 else 0

/-- The output that is read, when the allocator goes on with these answers. -/
def resolveOutput (output : Option (List UInt8)) (answers : List Bool) : Option (List UInt8) :=
  if answers.headD true then output else none

/-- **`check_lan_ip_config_validity`** closes the pipe. -/
theorem checkLanIpConfigValidity_ends (expectedIpAddr expectedNetmask : Option CString)
    (output : Option (List UInt8))
    (hlines : ∀ text, output = some text → (pieces 256 text).length < M.lines) :
    Ends (checkLanIpConfigValidity M expectedIpAddr expectedNetmask output) m
      (fun r m' => m'.cells = m.cells ∧ ∃ used, Answered used m m' ∧
        used.length = pipes expectedIpAddr expectedNetmask output ∧
        ∀ later, r = LanCheck.checkLanIpConfigValidity expectedIpAddr expectedNetmask
          (resolveOutput output (used ++ later)))
      (fun _ _ => False) := by
  rcases expectedIpAddr with - | ip
  · exact ends_of_ok rfl ⟨rfl, [], .of_eq rfl, rfl, fun _ => rfl⟩
  rcases expectedNetmask with - | mask
  · exact ends_of_ok rfl ⟨rfl, [], .of_eq rfl, rfl, fun _ => rfl⟩
  rcases output with - | text
  · exact ends_of_ok rfl ⟨rfl, [], .of_eq rfl, rfl, fun _ => by rw [resolveOutput, ite_self]; rfl⟩
  refine ends_bind_malloc _ _ (fun m₁ hcells hused => ?_) fun p m₁ hfree hcells hused => ?_
  · exact ends_of_ok rfl ⟨hcells, [false], hused, rfl, fun _ => rfl⟩
  · have hfuel : ((pieces 256 text).map cstr).length < M.lines := by
      rw [List.length_map]
      exact hlines text rfl
    obtain ⟨m₂, m₃, hloop, hclose, hcells₃, href₃⟩ :=
      read_and_close lanBody ⟨none, none⟩ hfree hcells hfuel
    rw [lanLoop_eq] at hloop
    refine ends_bind_ok hloop (ends_bind_ok hclose (ends_of_ok rfl ?_))
    exact ⟨hcells₃, [true], hused.congr rfl href₃, rfl, fun _ => compareStatus_eq ip mask text⟩

/-! ## The polling -/

/-- A round, when the allocator goes on with these answers: without memory for the stream it is
a round without a file. -/
def resolveRound (answers : List Bool) : Round → Round
  | .missing finish => .missing finish
  | .opened file header epoch finish =>
      if answers.headD true then .opened file header epoch finish else .missing finish

/-- The answers that are left for the round `i`. -/
def leftFor (env : Environment) (answers : List Bool) : ℕ → List Bool
  | 0 => answers
  | i + 1 =>
      match env.round i with
      | .missing _ => leftFor env answers i
      | .opened .. => (leftFor env answers i).tail

/-- The rounds, when the allocator answers this. -/
def resolveEnvironment (env : Environment) (answers : List Bool) : Environment where
  startTime := env.startTime
  round i := resolveRound (leftFor env answers i) (env.round i)

/-- What the loop leaves from the round `i` on, whatever was answered before that round. -/
def Polled (cfg : Config) (env : Environment) (fuel i : ℕ) (found : Bool) (m : Memory P Stream)
    (r : Option PollResult) (m' : Memory P Stream) : Prop :=
  m'.cells = m.cells ∧ ∃ used, Answered used m m' ∧
    ∀ answers later, leftFor env answers i = used ++ later →
      DhcpLeases.poll cfg (resolveEnvironment env answers) fuel i found = r

section Rounds

omit [DecidableEq P]

variable {cfg : Config} {env : Environment} {fuel i : ℕ} {found : Bool} {m₁ m' : Memory P Stream}
  {r : Option PollResult} {file : List UInt8} {header epoch finish : ℤ}

/-- A round without a file goes in front. -/
theorem Polled.missing (hround : env.round i = .missing finish)
    (h : Polled cfg env fuel (i + 1) found m r m') : Polled cfg env (fuel + 1) i found m r m' := by
  obtain ⟨hcells, used, hused, hpoll⟩ := h
  refine ⟨hcells, used, hused, fun answers later hleft => ?_⟩
  have hnext : leftFor env answers (i + 1) = used ++ later := by rw [leftFor, hround, hleft]
  have hresolved : (resolveEnvironment env answers).round i = .missing finish := by
    simp only [resolveEnvironment, hround, resolveRound]
  rw [DhcpLeases.poll, hresolved]
  exact hpoll answers later hnext

/-- A round with a refused stream goes in front. -/
theorem Polled.refused (hround : env.round i = .opened file header epoch finish)
    (hcells : m₁.cells = m.cells) (hused : Answered [false] m m₁)
    (h : Polled cfg env fuel (i + 1) found m₁ r m') :
    Polled cfg env (fuel + 1) i found m r m' := by
  obtain ⟨hcells', used, hused', hpoll⟩ := h
  refine ⟨hcells'.trans hcells, false :: used, hused.trans hused', fun answers later hleft => ?_⟩
  have hnext : leftFor env answers (i + 1) = used ++ later := by
    rw [leftFor, hround, hleft]
    rfl
  have hresolved : (resolveEnvironment env answers).round i = .missing finish := by
    simp only [resolveEnvironment, hround, hleft, resolveRound]
    rfl
  rw [DhcpLeases.poll, hresolved]
  exact hpoll answers later hnext

/-- A round with a file that is not the last goes in front. -/
theorem Polled.opened (hround : env.round i = .opened file header epoch finish)
    (hcells : m₁.cells = m.cells) (hused : Answered [true] m m₁)
    (hfound : ¬ (scanFile cfg epoch found file).1 = true)
    (hexpired : ¬ finish - env.startTime ≥ maxPollingDuration)
    (h : Polled cfg env fuel (i + 1) (scanFile cfg epoch found file).1 m₁ r m') :
    Polled cfg env (fuel + 1) i found m (r.map fun result => { result with
      tables := (header - env.startTime, (scanFile cfg epoch found file).2) :: result.tables })
      m' := by
  obtain ⟨hcells', used, hused', hpoll⟩ := h
  refine ⟨hcells'.trans hcells, true :: used, hused.trans hused', fun answers later hleft => ?_⟩
  have hnext : leftFor env answers (i + 1) = used ++ later := by
    rw [leftFor, hround, hleft]
    rfl
  have hresolved : (resolveEnvironment env answers).round i = .opened file header epoch finish := by
    simp only [resolveEnvironment, hround, hleft, resolveRound]
    rfl
  rw [DhcpLeases.poll, hresolved]
  dsimp only
  rw [if_neg hfound, show (resolveEnvironment env answers).startTime = env.startTime from rfl,
    if_neg hexpired, hpoll answers later hnext]
  cases r <;> rfl

/-- The last round. -/
theorem Polled.last (hround : env.round i = .opened file header epoch finish)
    (hcells : m'.cells = m.cells) (hused : Answered [true] m m')
    (hlast : (scanFile cfg epoch found file).1 = true ∨
      finish - env.startTime ≥ maxPollingDuration) :
    Polled cfg env (fuel + 1) i found m (some ⟨i, (scanFile cfg epoch found file).1,
      [(header - env.startTime, (scanFile cfg epoch found file).2)]⟩) m' := by
  refine ⟨hcells, [true], hused, fun answers later hleft => ?_⟩
  have hresolved : (resolveEnvironment env answers).round i = .opened file header epoch finish := by
    simp only [resolveEnvironment, hround, hleft, resolveRound]
    rfl
  rw [DhcpLeases.poll, hresolved]
  dsimp only
  rw [show (resolveEnvironment env answers).startTime = env.startTime from rfl]
  by_cases hfound : (scanFile cfg epoch found file).1 = true
  · rw [if_pos hfound, hfound]
  · rw [if_neg hfound, if_pos (hlast.resolve_left hfound), Bool.eq_false_iff.mpr hfound]

end Rounds

/-- **The polling loop** closes the file in every round. -/
theorem poll_ends (cfg : Config) {env : Environment}
    (hlines : ∀ i file header epoch finish, env.round i = .opened file header epoch finish →
      (pieces 256 file).length < M.lines) (fuel : ℕ) :
    ∀ i found m, Ends (poll M cfg env fuel i found) m
      (fun r m' => Polled cfg env fuel i found m (some r) m')
      (fun fault m' => fault = .outOfFuel ∧ Polled cfg env fuel i found m none m') := by
  induction fuel with
  | zero => exact fun i found m => ends_of_error rfl ⟨rfl, rfl, [], .of_eq rfl, fun _ _ _ => rfl⟩
  | succ fuel ih =>
      intro i found m
      rw [poll]
      cases hround : env.round i with
      | missing finish =>
          exact (ih (i + 1) found m).mono (fun r m' h => h.missing hround)
            fun fault m' h => ⟨h.1, h.2.missing hround⟩
      | opened file header epoch finish =>
          refine ends_bind_malloc _ _ (fun m₁ hcells₁ hused₁ => ?_)
            fun p m₁ hfree hcells₁ hused₁ => ?_
          · -- no memory for the stream: the round goes on as one without a file
            exact (ih (i + 1) found m₁).mono (fun r m' h => h.refused hround hcells₁ hused₁)
              fun fault m' h => ⟨h.1, h.2.refused hround hcells₁ hused₁⟩
          · have hfuel : ((pieces 256 file).map cstr).length < M.lines := by
              rw [List.length_map]
              exact hlines i file header epoch finish hround
            obtain ⟨m₂, m₃, hloop, hclose, hcells₃, href₃⟩ :=
              read_and_close (leaseBody cfg epoch) (found, []) hfree hcells₁ hfuel
            rw [leaseLoop_eq, List.nil_append] at hloop
            have hused : Answered [true] m m₃ := hused₁.congr rfl href₃
            refine ends_bind_ok hloop (ends_bind_ok hclose ?_)
            have hscan : scanFile cfg epoch found file =
                scanLines cfg epoch found ((pieces 256 file).map cstr) := rfl
            rw [← hscan]
            dsimp only
            by_cases hfound : (scanFile cfg epoch found file).1 = true
            · rw [if_pos hfound]
              refine ends_of_ok rfl ?_
              have hlast : Polled cfg env (fuel + 1) i found m (some ⟨i, _, _⟩) m₃ :=
                Polled.last hround hcells₃ hused (.inl hfound)
              rwa [hfound] at hlast
            · rw [if_neg hfound]
              by_cases hexpired : finish - env.startTime ≥ maxPollingDuration
              · rw [if_pos hexpired]
                refine ends_of_ok rfl ?_
                have hlast : Polled cfg env (fuel + 1) i found m (some ⟨i, _, _⟩) m₃ :=
                  Polled.last hround hcells₃ hused (.inr hexpired)
                rwa [Bool.eq_false_iff.mpr hfound] at hlast
              · rw [if_neg hexpired]
                refine Ends.bind ((ih (i + 1) _ m₃).mono (fun r m' h => h) fun fault m' h =>
                  ⟨h.1, h.2.opened hround hcells₃ hused hfound hexpired⟩) ?_
                exact fun result m' h =>
                  ends_of_ok rfl (h.opened hround hcells₃ hused hfound hexpired)

/-- **`check_dhcp_leases_with_validation`** closes every file. -/
theorem checkDhcpLeasesWithValidation_ends (configuredStartIpStr : Option CString)
    (configuredLimit : Int32) (configuredLeasetimeSeconds : ℤ) {env : Environment}
    (hlines : ∀ i file header epoch finish, env.round i = .opened file header epoch finish →
      (pieces 256 file).length < M.lines) :
    Ends (checkDhcpLeasesWithValidation M configuredStartIpStr configuredLimit
        configuredLeasetimeSeconds env) m
      (fun r m' => m'.cells = m.cells ∧ ∃ used, Answered used m m' ∧
        DhcpLeases.checkDhcpLeasesWithValidation M.fuel configuredStartIpStr configuredLimit
          configuredLeasetimeSeconds (resolveEnvironment env used) = some r)
      (fun fault m' => fault = .outOfFuel ∧ m'.cells = m.cells ∧ ∃ used, Answered used m m' ∧
        DhcpLeases.checkDhcpLeasesWithValidation M.fuel configuredStartIpStr configuredLimit
          configuredLeasetimeSeconds (resolveEnvironment env used) = none) := by
  rcases configuredStartIpStr with - | startIpStr
  · exact ends_of_ok rfl ⟨rfl, [], .of_eq rfl, rfl⟩
  unfold checkDhcpLeasesWithValidation DhcpLeases.checkDhcpLeasesWithValidation
  dsimp only
  by_cases hparams : startIpStr.length = 0 ∨ configuredLimit ≤ 0 ∨ configuredLeasetimeSeconds ≤ 0
  · rw [if_pos hparams]
    exact ends_of_ok rfl ⟨rfl, [], .of_eq rfl, if_pos hparams⟩
  · rw [if_neg hparams]
    let cfg : Config := ⟨startIpStr, configuredLimit, configuredLeasetimeSeconds⟩
    by_cases hstart : cfg.startIpNum = 0
    · rw [if_pos hstart]
      exact ends_of_ok rfl ⟨rfl, [], .of_eq rfl, by rw [if_neg hparams, if_pos hstart]⟩
    · rw [if_neg hstart]
      simp only [if_neg hparams]
      refine Ends.bind ((poll_ends cfg hlines M.fuel 0 false m).mono (fun r m' h => h) ?_) ?_
      · rintro fault m' ⟨hfault, hcells, used, hused, hpoll⟩
        refine ⟨hfault, hcells, used, hused, ?_⟩
        rw [if_neg hstart, hpoll used [] (List.append_nil used).symm]
        rfl
      · rintro result m' ⟨hcells, used, hused, hpoll⟩
        refine ends_of_ok rfl ⟨hcells, used, hused, ?_⟩
        rw [if_neg hstart, hpoll used [] (List.append_nil used).symm]
        rfl

/-! ## The two checks -/

variable (M) in
/-- The checks at the end of `main`, one after the other. -/
def checks (expectedIpAddr expectedNetmask : Option CString) (output : Option (List UInt8))
    (configuredStartIpStr : Option CString) (configuredLimit : Int32)
    (configuredLeasetimeSeconds : ℤ) (env : Environment) : Prog P Stream (ℤ × Outcome) := do
  let validity ← checkLanIpConfigValidity M expectedIpAddr expectedNetmask output
  let leases ← checkDhcpLeasesWithValidation M configuredStartIpStr configuredLimit
    configuredLeasetimeSeconds env
  return (validity, leases)

/-- **The checks use memory and streams soundly.**  Whatever the allocator answers, they return or
are still polling, with the memory as it was before: the pipe and the lease file of every round
are closed, once, on every way out.  What they find is what they find when each refused stream is
a command that does not start, or a round without a file. -/
theorem checks_keep_memory (M : Machine P) (expectedIpAddr expectedNetmask : Option CString)
    (output : Option (List UInt8)) (configuredStartIpStr : Option CString)
    (configuredLimit : Int32) (configuredLeasetimeSeconds : ℤ) (env : Environment)
    (m : Memory P Stream)
    (hpipe : ∀ text, output = some text → (pieces 256 text).length < M.lines)
    (hlines : ∀ i file header epoch finish, env.round i = .opened file header epoch finish →
      (pieces 256 file).length < M.lines) :
    Ends (checks M expectedIpAddr expectedNetmask output configuredStartIpStr configuredLimit
        configuredLeasetimeSeconds env) m
      (fun r m' => m'.cells = m.cells ∧ ∃ used, Answered used m m' ∧
        r.1 = LanCheck.checkLanIpConfigValidity expectedIpAddr expectedNetmask
          (resolveOutput output used) ∧
        DhcpLeases.checkDhcpLeasesWithValidation M.fuel configuredStartIpStr configuredLimit
          configuredLeasetimeSeconds (resolveEnvironment env
            (used.drop (pipes expectedIpAddr expectedNetmask output))) = some r.2)
      (fun fault m' => fault = .outOfFuel ∧ m'.cells = m.cells ∧ ∃ used, Answered used m m' ∧
        DhcpLeases.checkDhcpLeasesWithValidation M.fuel configuredStartIpStr configuredLimit
          configuredLeasetimeSeconds (resolveEnvironment env
            (used.drop (pipes expectedIpAddr expectedNetmask output))) = none) := by
  refine Ends.bind ((checkLanIpConfigValidity_ends expectedIpAddr expectedNetmask output
    hpipe).mono (fun _ _ hQ => hQ) fun _ _ hE => hE.elim) ?_
  rintro validity m₁ ⟨hcells₁, used₁, hused₁, hlength, hvalidity⟩
  refine Ends.bind ((checkDhcpLeasesWithValidation_ends _ _ _ hlines).mono (fun _ _ hQ => hQ) ?_) ?_
  · rintro fault m₂ ⟨hfault, hcells₂, used₂, hused₂, hleases⟩
    refine ⟨hfault, hcells₂.trans hcells₁, used₁ ++ used₂, hused₁.trans hused₂, ?_⟩
    rw [← hlength, List.drop_left]
    exact hleases
  · rintro leases m₂ ⟨hcells₂, used₂, hused₂, hleases⟩
    refine ends_of_ok rfl ⟨hcells₂.trans hcells₁, used₁ ++ used₂, hused₁.trans hused₂,
      hvalidity used₂, ?_⟩
    rw [← hlength, List.drop_left]
    exact hleases

/-- The pipe is given, the lease file of the first round is refused, and that of the second is
read when the time is over. -/
theorem checks_keep_memory_refused_round :
    ∃ r m', checks ⟨Allocator.refusing 1, 4, 4⟩ (some (str "192.168.1.1")) (some (str "255.255.255.0"))
        (some []) (some (str "192.168.1.100")) 10 3600 ⟨0, fun i => .opened [] 0 0 (180 * i)⟩
        ⟨fun _ => none, []⟩ = (.ok r, m') ∧
      m'.cells = (fun _ => none) ∧ m'.answers = [true, false, true] := by
  have h := checks_keep_memory ⟨Allocator.refusing 1, 4, 4⟩ (some (str "192.168.1.1"))
    (some (str "255.255.255.0")) (some []) (some (str "192.168.1.100")) 10 3600
    ⟨0, fun i => .opened [] 0 0 (180 * i)⟩ ⟨fun _ => none, []⟩
    (by rintro text ⟨⟩; decide) (by rintro i file header epoch finish ⟨⟩; decide)
  exact ⟨_, _, rfl, And.left h, rfl⟩

end HandlerMemory
