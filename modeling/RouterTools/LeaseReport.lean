/-
# What the lease check reports

`lease_report_sound` says what `check_dhcp_leases_with_validation` has printed when it returns:
a table for each round in which the lease file opened, at least five seconds apart and never
more than 37 of them, however long the file is missing in between; an address of the new range
in no table but the last, and there exactly when the verdict says so.
`lease_row_read_back` says that a printed row is read back: its words, the remaining seconds and
both marks.
-/
import Mathlib.Data.List.Pairwise
import RouterTools.Framing
import RouterTools.LeasePolling

namespace DhcpLeases

open CString
open Stdio (pieces cstr isDigit)

/-! ## The marks -/

/-- The mark of a lease in the new range. -/
def yes : CString := str "Yes"

/-- A table with a lease in the new range. -/
def HasYes (table : ℤ × List Row) : Prop := ∃ row ∈ table.2, row.inRangeStr = yes

/-- The four texts differ. -/
theorem inRangeStr_eq_yes (startIpNum endIpNumeric : ℕ) (ip : CString) :
    (inRangeStr startIpNum endIpNumeric ip).1 = yes ↔
      (inRangeStr startIpNum endIpNumeric ip).2 = true := by
  unfold inRangeStr
  dsimp only
  split_ifs <;> decide

/-- **The flag is set** when a row has the mark. -/
theorem scanLines_yes (cfg : Config) (now : ℤ) (found : Bool) (lines : List CString) :
    (scanLines cfg now found lines).1 = true ↔
      found = true ∨ ∃ row ∈ (scanLines cfg now found lines).2, row.inRangeStr = yes := by
  induction lines generalizing found with
  | nil => simp [scanLines]
  | cons line lines ih =>
      rw [scanLines]
      cases hlease : scanLine line with
      | none => exact ih found
      | some lease =>
          dsimp only
          rw [ih, Bool.or_eq_true, ← inRangeStr_eq_yes, or_assoc]
          simp only [List.mem_cons, exists_eq_or_imp]
          rfl

/-! ## The tables -/

/-- The rows for a lease file: one for each line that is taken for a lease, in their order. -/
def rowsOf (cfg : Config) (now : ℤ) (file : List UInt8) : List Row :=
  (((pieces 256 file).map cstr).filterMap scanLine).map (leaseRow cfg now)

theorem scanFile_rows (cfg : Config) (now : ℤ) (found : Bool) (file : List UInt8) :
    (scanFile cfg now found file).2 = rowsOf cfg now file := by
  have hlines : ∀ (lines : List CString) found,
      (scanLines cfg now found lines).2 = (lines.filterMap scanLine).map (leaseRow cfg now) := by
    intro lines
    induction lines with
    | nil => exact fun _ => rfl
    | cons line lines ih =>
        intro found
        rw [scanLines]
        cases hlease : scanLine line with
        | none => rw [List.filterMap_cons_none hlease, ih]
        | some lease =>
            rw [List.filterMap_cons_some hlease, List.map_cons]
            exact congrArg _ (ih _)
  exact hlines _ found

/-- The table that a round prints. -/
def tableOf (cfg : Config) (env : Environment) (i : ℕ) : Option (ℤ × List Row) :=
  match env.round i with
  | .missing _ => none
  | .opened file header epoch _ => some (header - env.startTime, rowsOf cfg epoch file)

variable {cfg : Config} {env : Environment}

theorem tableOf_of_opened {i : ℕ} {file : List UInt8} {header epoch finish : ℤ}
    (h : env.round i = .opened file header epoch finish) :
    tableOf cfg env i = some (header - env.startTime, (scanFile cfg epoch false file).2) := by
  rw [tableOf, h, scanFile_rows]

theorem finds_iff_of_opened {i : ℕ} {file : List UInt8} {header epoch finish : ℤ}
    (h : env.round i = .opened file header epoch finish) :
    Finds cfg env i ↔ (scanFile cfg epoch false file).1 = true := by
  constructor
  · rintro ⟨file', header', epoch', finish', hround, hfound⟩
    rw [h] at hround
    cases hround
    exact hfound
  · exact fun hfound => ⟨file, header, epoch, finish, h, hfound⟩

/-- The table of a round has the mark exactly when the round finds an address. -/
theorem hasYes_iff_finds {i : ℕ} {table : ℤ × List Row} (h : tableOf cfg env i = some table) :
    HasYes table ↔ Finds cfg env i := by
  unfold tableOf at h
  split at h
  · cases h
  · rename_i file header epoch finish hround
    rw [← scanFile_rows cfg epoch false file] at h
    cases h
    have hyes := scanLines_yes cfg epoch false ((pieces 256 file).map cstr)
    have hscan : HasYes (header - env.startTime, (scanFile cfg epoch false file).2) ↔
        (scanFile cfg epoch false file).1 = true := by
      rw [scanFile, hyes]
      simp [HasYes]
    rw [hscan, finds_iff_of_opened hround]

/-- **The tables printed** are those of the rounds, up to the one that stops the loop. -/
theorem poll_tables {fuel i : ℕ} {result : PollResult}
    (h : poll cfg env fuel i false = some result) :
    ∃ n table, result.round = i + n ∧ tableOf cfg env (i + n) = some table ∧
      (result.found = true ↔ Finds cfg env (i + n)) ∧
      result.tables = (List.range' i n).filterMap (tableOf cfg env) ++ [table] := by
  induction fuel generalizing i result with
  | zero => cases h
  | succ fuel ih =>
      rw [poll] at h
      cases hround : env.round i with
      | missing finish =>
          rw [hround] at h
          obtain ⟨n, table, hr, htable, hfound, htables⟩ := ih h
          have hnone : tableOf cfg env i = none := by rw [tableOf, hround]
          have hn : i + 1 + n = i + (n + 1) := by omega
          rw [hn] at hr htable hfound
          refine ⟨n + 1, table, hr, htable, hfound, ?_⟩
          rw [htables, List.range'_succ, List.filterMap_cons_none hnone]
      | opened file header epoch finish =>
          rw [hround] at h
          have htable : tableOf cfg env i = some
              (header - env.startTime, (scanFile cfg epoch false file).2) :=
            tableOf_of_opened hround
          have hfinds : Finds cfg env i ↔ (scanFile cfg epoch false file).1 = true :=
            finds_iff_of_opened hround
          dsimp only at h
          by_cases hfound : (scanFile cfg epoch false file).1 = true
          · rw [if_pos hfound] at h
            cases h
            exact ⟨0, _, rfl, htable, iff_of_true rfl (hfinds.mpr hfound), rfl⟩
          · rw [if_neg hfound] at h
            by_cases hexpired : finish - env.startTime ≥ maxPollingDuration
            · rw [if_pos hexpired] at h
              cases h
              exact ⟨0, _, rfl, htable,
                iff_of_false Bool.false_ne_true (mt hfinds.mp hfound), rfl⟩
            · rw [if_neg hexpired] at h
              rw [Bool.not_eq_true] at hfound
              rw [hfound] at h
              cases hrest : poll cfg env fuel (i + 1) false with
              | none =>
                  rw [hrest] at h
                  cases h
              | some rest =>
                  rw [hrest] at h
                  cases h
                  obtain ⟨n, table, hr, htable', hfound', htables⟩ := ih hrest
                  have hn : i + 1 + n = i + (n + 1) := by omega
                  rw [hn] at hr htable' hfound'
                  refine ⟨n + 1, table, hr, htable', hfound', ?_⟩
                  dsimp only
                  rw [htables, List.range'_succ, List.filterMap_cons_some htable,
                    List.cons_append]

/-! ## The times -/

/-- The rounds from `i` on are at least five seconds apart. -/
theorem Environment.Clock.earliest_add (h : env.Clock) (i n : ℕ) :
    earliest env i + n * pollingInterval ≤ earliest env (i + n) := by
  induction n with
  | zero => simp
  | succ n ih =>
      have hn := h (i + n)
      rw [← Nat.add_assoc, earliest]
      cases hround : env.round (i + n) with
      | missing finish =>
          rw [hround] at hn
          simp only [pollingInterval] at *
          omega
      | opened file header epoch finish =>
          rw [hround] at hn
          simp only [pollingInterval] at *
          omega

/-- **A later table** is printed at least five seconds later for each round. -/
theorem Environment.Clock.tables_apart (h : env.Clock) {i j : ℕ} (hij : i < j)
    {table table' : ℤ × List Row} (hi : tableOf cfg env i = some table)
    (hj : tableOf cfg env j = some table') : table.1 + 5 ≤ table'.1 := by
  obtain ⟨n, rfl⟩ := Nat.exists_eq_add_of_le (Nat.succ_le_of_lt hij)
  have hearliest := h.earliest_add (i + 1) n
  have hclock := h i
  have hclock' := h (i.succ + n)
  unfold tableOf at hi hj
  split at hi
  · cases hi
  rename_i file header epoch finish hround
  cases hi
  split at hj
  · cases hj
  rename_i file' header' epoch' finish' hround'
  cases hj
  rw [hround] at hclock
  rw [hround'] at hclock'
  rw [earliest, hround] at hearliest
  simp only [Nat.succ_eq_add_one, pollingInterval] at *
  omega

/-- Times at least five seconds apart, in a span. -/
theorem length_le_of_apart {times : List ℤ} (lo hi : ℤ) (hlo : lo ≤ hi + 4)
    (hapart : times.Pairwise fun t t' => t + 5 ≤ t') (hin : ∀ t ∈ times, lo ≤ t ∧ t < hi) :
    5 * (times.length : ℤ) ≤ hi + 4 - lo := by
  induction times generalizing lo with
  | nil =>
      rw [List.length_nil]
      omega
  | cons t times ih =>
      obtain ⟨hlater, hapart⟩ := List.pairwise_cons.mp hapart
      obtain ⟨hle, hlt⟩ := hin t List.mem_cons_self
      have hrest := ih (t + 5) (by omega) hapart fun t' ht' =>
        ⟨hlater t' ht', (hin t' (List.mem_cons_of_mem t ht')).2⟩
      rw [List.length_cons]
      push_cast
      omega

/-- Tables are at least five seconds apart. -/
theorem Environment.Clock.pairwise_tables (h : env.Clock) {rounds : List ℕ}
    (hrounds : rounds.Pairwise (· < ·)) :
    (rounds.filterMap (tableOf cfg env)).Pairwise fun t t' => t.1 + 5 ≤ t'.1 := by
  rw [List.pairwise_filterMap]
  refine hrounds.imp ?_
  intro i j hij table hi table' hj
  exact h.tables_apart hij hi hj

/-- A round is not printed before the start. -/
theorem Environment.Clock.table_nonneg (h : env.Clock) {i : ℕ} {table : ℤ × List Row}
    (hi : tableOf cfg env i = some table) : 0 ≤ table.1 := by
  have hearliest := h.earliest_ge i
  have hclock := h i
  unfold tableOf at hi
  split at hi
  · cases hi
  rename_i file header epoch finish hround
  cases hi
  rw [hround] at hclock
  simp only [pollingInterval] at *
  omega

/-- A round that does not stop the loop prints its table before the deadline. -/
theorem Environment.Clock.table_lt (h : env.Clock) {i : ℕ} {table : ℤ × List Row}
    (hi : tableOf cfg env i = some table) (hgoes : ¬ Stops cfg env i) :
    table.1 < maxPollingDuration := by
  have hclock := h i
  have hexpired : (env.round i).Opens → ¬ Expired env i := fun hopens hover =>
    hgoes (.inr ⟨hopens, hover⟩)
  unfold tableOf at hi
  split at hi
  · cases hi
  rename_i file header epoch finish hround
  cases hi
  rw [Expired, hround] at hexpired
  rw [hround] at hclock
  have hnot := hexpired trivial
  simp only [Round.finish] at hnot
  dsimp only
  omega

/-! ## The report -/

/-- What has been printed when the loop is left. -/
structure ReportSound (cfg : Config) (env : Environment) (result : PollResult) : Prop where
  tables : result.tables = (List.range (result.round + 1)).filterMap (tableOf cfg env)
  verdict : ∃ earlier last, result.tables = earlier ++ [last] ∧
    (∀ table ∈ earlier, ¬ HasYes table ∧ table.1 < maxPollingDuration) ∧
    (result.found = true ↔ HasYes last)
  apart : result.tables.Pairwise fun t t' => t.1 + 5 ≤ t'.1
  few : result.tables.length ≤ 37

theorem poll_sound (hclock : env.Clock) {fuel : ℕ} {result : PollResult}
    (h : poll cfg env fuel 0 false = some result) : ReportSound cfg env result := by
  obtain ⟨n, last, hround, hlast, hfound, htables⟩ := poll_tables h
  obtain ⟨-, -, hgoes⟩ := poll_eq_some h
  rw [Nat.zero_add] at hround hlast hfound
  rw [← List.range_eq_range'] at htables
  have hall : result.tables = (List.range (n + 1)).filterMap (tableOf cfg env) := by
    rw [htables, List.range_succ, List.filterMap_append, List.filterMap_cons_some hlast]
    rfl
  have hearlier : ∀ table ∈ (List.range n).filterMap (tableOf cfg env),
      ∃ i, tableOf cfg env i = some table ∧ ¬ Stops cfg env i := by
    intro table hmem
    obtain ⟨i, hi, htable⟩ := List.mem_filterMap.mp hmem
    exact ⟨i, htable, hgoes i (Nat.zero_le i) (by rw [hround]; exact List.mem_range.mp hi)⟩
  have hapart : result.tables.Pairwise fun t t' => t.1 + 5 ≤ t'.1 := by
    rw [hall]
    exact hclock.pairwise_tables List.pairwise_lt_range
  refine ⟨by rw [hround]; exact hall, ⟨_, last, htables, ?_, ?_⟩, hapart, ?_⟩
  · intro table hmem
    obtain ⟨i, htable, hnot⟩ := hearlier table hmem
    refine ⟨fun hyes => hnot (.inl ((hasYes_iff_finds htable).mp hyes)), ?_⟩
    exact hclock.table_lt htable hnot
  · rw [hfound, hasYes_iff_finds hlast]
  · -- all but the last are printed in less than three minutes
    rw [htables, List.pairwise_append] at hapart
    have hlen := length_le_of_apart 0 maxPollingDuration (by decide)
      (List.pairwise_map.mpr hapart.1) (by
        intro t ht
        obtain ⟨table, hmem, rfl⟩ := List.mem_map.mp ht
        obtain ⟨i, htable, hnot⟩ := hearlier table hmem
        exact ⟨hclock.table_nonneg htable, hclock.table_lt htable hnot⟩)
    rw [List.length_map, maxPollingDuration] at hlen
    rw [htables, List.length_append, List.length_singleton]
    omega

/-- **The report is faithful.**  Whenever the polling loop is left, the tables printed are those
of the rounds with a lease file, at least five seconds apart and at most 37 of them; no table but
the last has an address of the new range in it, and the last one has one exactly when the verdict
is that the new range is in use. -/
theorem lease_report_sound (startIpStr : CString) (limit : Int32) (leasetimeSeconds : ℤ)
    (env : Environment) (hclock : env.Clock) (fuel : ℕ) (result : PollResult)
    (h : checkDhcpLeasesWithValidation fuel (some startIpStr) limit leasetimeSeconds env =
      some (.polled result)) :
    ReportSound ⟨startIpStr, limit, leasetimeSeconds⟩ env result := by
  unfold checkDhcpLeasesWithValidation at h
  dsimp only at h
  split_ifs at h
  · cases h
  · cases h
  · obtain ⟨result', hpoll, heq⟩ := Option.map_eq_some_iff.mp h
    cases heq
    exact poll_sound hclock hpoll

/-- A lease file that is missing at first, then has an old address in it, then a new one. -/
def leaseArrives : Environment where
  startTime := 0
  round
    | 0 => .missing 5
    | 1 => .opened (str "500 aa:bb 10.0.0.9 pc\nshort line\n") 5 5 5
    | n + 2 => .opened (str "500 aa:bb 192.168.1.5 pc\n") (5 * n + 10) (5 * n + 10) (5 * n + 10)

/-- What is printed of them. -/
def leaseArrivesReport : PollResult where
  round := 2
  found := true
  tables := [(5, [⟨str "aa:bb", str "10.0.0.9", str "pc", str "00h:08m:15s", str "No", yes⟩]),
    (10, [⟨str "aa:bb", str "192.168.1.5", str "pc", str "00h:08m:10s", yes, yes⟩])]

theorem lease_report_sound_arrives : ReportSound sampleConfig leaseArrives leaseArrivesReport := by
  have hclock : leaseArrives.Clock := by
    intro i
    rcases i with - | - | - | n
    · show (0 : ℤ) + 5 ≤ 5
      decide
    · show (5 : ℤ) ≤ 5 ∧ (5 : ℤ) ≤ 5 ∧ (5 : ℤ) ≤ 5
      decide
    · show (5 : ℤ) + 5 ≤ 10 ∧ (10 : ℤ) ≤ 10 ∧ (10 : ℤ) ≤ 10
      decide
    · refine ⟨?_, le_rfl, le_rfl⟩
      simp only [earliest, leaseArrives, pollingInterval]
      push_cast
      omega
  apply lease_report_sound _ _ _ _ hclock 3
  exact (sampleConfig_valid.check 3 _).trans rfl

/-! ## Reading a row -/

/-- `'h'`, `'m'` and `'s'`. -/
def hourMark : UInt8 := 104
def minuteMark : UInt8 := 109
def secondMark : UInt8 := 115

/-- `<hours>h:<minutes>m:<seconds>s`. -/
def timeFrame :
    Frame UInt8 (Frame.Line hourMark × Frame.Line minuteMark × Frame.Line secondMark) :=
  (Frame.line hourMark).pair
    (((Frame.line minuteMark).labelled (str ":")).pair
      ((Frame.line secondMark).labelled (str ":")))

/-- The seconds that a remaining time stands for; there are none for an expired lease. -/
def readRemaining (s : CString) : Option ℕ :=
  (timeFrame.decode s).map fun x => Stdio.digitsValue x.1.1.1 * 3600 +
    Stdio.digitsValue x.1.2.1.1 * 60 + Stdio.digitsValue x.1.2.2.1

theorem digitsValue_decimal2 (n : ℕ) : Stdio.digitsValue (decimal2 n) = n := by
  have hdecimal := Stdio.digitsValue_decimal n
  unfold decimal2
  split_ifs
  · -- a zero in front does not matter
    rw [Stdio.digitsValue, List.foldl_cons]
    exact hdecimal
  · exact hdecimal

theorem not_mem_decimal2 {n : ℕ} {b : UInt8} (h : ∀ d < 10, b ≠ UInt8.ofNat (48 + d)) :
    b ∉ decimal2 n := by
  have hdecimal : b ∉ decimal n := not_mem_decimal h
  unfold decimal2
  split_ifs
  · rw [List.mem_cons, not_or]
    exact ⟨h 0 (by omega), hdecimal⟩
  · exact hdecimal

theorem length_decimal2_le {n k : ℕ} (hk : 2 ≤ k) (hn : n < 10 ^ k) :
    (decimal2 n).length ≤ k := by
  have hlen := (length_decimal_le_iff (n := n) (k := k) (by omega)).mpr hn
  unfold decimal2
  split_ifs with hten
  · have hone := (length_decimal_le_iff (n := n) (k := 1) (by omega)).mpr (by omega)
    rw [List.length_cons]
    omega
  · exact hlen

/-- **The remaining time is read back.** -/
theorem readRemaining_remainingStr {remaining : ℤ} (h : remaining < 2 ^ 63) :
    readRemaining (remainingStr remaining) =
      if 0 < remaining then some remaining.toNat else none := by
  unfold remainingStr
  by_cases hpos : remaining > 0
  · rw [if_pos hpos, if_pos hpos]
    generalize hn : remaining.toNat = n
    have hbound : n < 2 ^ 63 := by omega
    -- the text fits into the buffer
    have hfits : (decimal2 (n / 3600) ++ str "h:" ++ decimal2 (n % 3600 / 60) ++ str "m:" ++
        decimal2 (n % 60) ++ str "s").length ≤ 64 - 1 := by
      have h1 := length_decimal2_le (n := n / 3600) (k := 16) (by omega) (by omega)
      have h2 := length_decimal2_le (n := n % 3600 / 60) (k := 2) (by omega) (by omega)
      have h3 := length_decimal2_le (n := n % 60) (k := 2) (by omega) (by omega)
      have hh : (str "h:").length = 2 := by decide
      have hm : (str "m:").length = 2 := by decide
      have hs : (str "s").length = 1 := by decide
      simp only [List.length_append, hh, hm, hs]
      omega
    rw [copyTo_of_le hfits]
    have hletter : ∀ (b : UInt8) (n : ℕ), (∀ d < 10, b ≠ UInt8.ofNat (48 + d)) → b ∉ decimal2 n :=
      fun b n hb => not_mem_decimal2 hb
    have hencode : decimal2 (n / 3600) ++ str "h:" ++ decimal2 (n % 3600 / 60) ++ str "m:" ++
        decimal2 (n % 60) ++ str "s" =
          timeFrame.encode (⟨decimal2 (n / 3600), hletter hourMark _ (by decide)⟩,
            ⟨decimal2 (n % 3600 / 60), hletter minuteMark _ (by decide)⟩,
            ⟨decimal2 (n % 60), hletter secondMark _ (by decide)⟩) ++ [] := by
      have hh : str "h:" = hourMark :: str ":" := by decide
      have hm : str "m:" = minuteMark :: str ":" := by decide
      have hs : str "s" = [secondMark] := by decide
      rw [timeFrame, Frame.encode_pair, Frame.encode_pair, Frame.encode_labelled,
        Frame.encode_labelled, Frame.encode_line, Frame.encode_line, Frame.encode_line, hh, hm, hs]
      simp only [List.append_assoc, List.cons_append, List.nil_append, List.append_nil]
    rw [readRemaining, hencode, Frame.decode_encode, Option.map_some]
    simp only [digitsValue_decimal2]
    congr 1
    omega
  · rw [if_neg hpos, if_neg hpos]
    decide

/-- `%-20s` and the like. -/
def padRight (width : ℕ) (s : CString) : CString := s ++ spaces (width - s.length)

/-- The `printf` of a row. -/
def printedRow (row : Row) : CString :=
  padRight 20 row.macAddr ++ space :: (padRight 18 row.ipAddrStr ++ space ::
    (padRight 15 row.hostname ++ space :: (padRight 18 row.remainingStr ++ space ::
      (padRight 12 row.inRangeStr ++ space :: (row.validLeaseStr ++ [newline])))))

/-- What is read from a printed row. -/
structure ShownRow where
  macAddr : CString
  ipAddrStr : CString
  hostname : CString
  /-- none for an expired lease -/
  remaining : Option ℕ
  inRange : Bool
  validLease : Bool

/-- Reading a printed row by its words; the text of an expired lease has three. -/
def readRow (text : CString) : Option ShownRow :=
  match Scan.tokens isspace text with
  | macAddr :: ipAddrStr :: hostname :: remaining :: rest =>
      let marks := if remaining = str "Da" then rest.drop 2 else rest
      some ⟨macAddr, ipAddrStr, hostname, readRemaining remaining, marks.head? = some yes,
        marks.getLast? = some yes⟩
  | _ => none

/-- No byte of a text is white space, tested byte by byte. -/
theorem clean_of_all {w : CString} (h : (w.all fun b => !isspace b) = true) :
    ∀ b ∈ w, isspace b = false := by
  intro b hb
  have hclean := List.all_eq_true.mp h b hb
  rwa [Bool.not_eq_true'] at hclean

/-- A word, as `%s` scans it. -/
def Word (w : CString) : Prop := w ≠ [] ∧ ∀ b ∈ w, isspace b = false

theorem Word.tokens {w : CString} (h : Word w) : Scan.tokens isspace w = [w] :=
  Scan.tokens_of_clean h.2 h.1

/-- What `%s` takes is a word. -/
theorem sscanf_space_word_eq_cons {width : ℕ} {format : List Sscanf.Directive} {input : CString}
    {w : CString} {items : List Sscanf.Item}
    (h : Sscanf.sscanf (.space :: .word width :: format) input = .word w :: items) :
    Word w ∧ ∃ rest, Sscanf.sscanf format rest = items := by
  rw [sscanf_space_word] at h
  obtain ⟨gap, word, rest, -, hword, -, heq, hrest⟩ := Sscanf.sscanf_word_eq_cons_iff.mp h
  rw [Sscanf.Item.word.injEq] at heq
  rw [heq]
  exact ⟨⟨hword.1, hword.2.1⟩, rest, hrest⟩

/-- The words of a line that is not skipped. -/
theorem scanLine_words {line : CString} {lease : Lease} (h : scanLine line = some lease) :
    Word lease.macAddr ∧ Word lease.ipAddrStr ∧ Word lease.hostname := by
  unfold scanLine leaseFormat at h
  split at h
  · rename_i expiry mac ip heq
    cases h
    obtain ⟨-, -, -, rest, -, -, -, -, h₁⟩ := Sscanf.sscanf_long_eq_cons_iff.mp heq
    obtain ⟨hmac, rest₁, h₂⟩ := sscanf_space_word_eq_cons h₁
    obtain ⟨hip, -⟩ := sscanf_space_word_eq_cons h₂
    have hstar : Word (str "*") := ⟨by decide, clean_of_all (by decide)⟩
    exact ⟨hmac, hip, hstar⟩
  · rename_i expiry mac ip host heq
    cases h
    obtain ⟨-, -, -, rest, -, -, -, -, h₁⟩ := Sscanf.sscanf_long_eq_cons_iff.mp heq
    obtain ⟨hmac, rest₁, h₂⟩ := sscanf_space_word_eq_cons h₁
    obtain ⟨hip, rest₂, h₃⟩ := sscanf_space_word_eq_cons h₂
    obtain ⟨hhost, -⟩ := sscanf_space_word_eq_cons h₃
    exact ⟨hmac, hip, hhost⟩
  · cases h

theorem tokens_spaces (n : ℕ) : Scan.tokens isspace (spaces n) = [] := by
  induction n with
  | zero => rfl
  | succ n ih =>
      rw [spaces, List.replicate_succ, Scan.tokens_cons (by decide)]
      exact ih

/-- Blanks behind a text do not matter. -/
theorem tokens_padRight (width : ℕ) (s : CString) :
    Scan.tokens isspace (padRight width s) = Scan.tokens isspace s := by
  rw [padRight]
  cases width - s.length with
  | zero => exact congrArg _ (List.append_nil s)
  | succ n =>
      rw [spaces, List.replicate_succ, Scan.tokens_append_delim (by decide)]
      exact (congrArg _ (tokens_spaces n)).trans (List.append_nil _)

/-- The words of a printed row are those of its columns. -/
theorem tokens_printedRow (row : Row) :
    Scan.tokens isspace (printedRow row) =
      Scan.tokens isspace row.macAddr ++ (Scan.tokens isspace row.ipAddrStr ++
        (Scan.tokens isspace row.hostname ++ (Scan.tokens isspace row.remainingStr ++
          (Scan.tokens isspace row.inRangeStr ++ Scan.tokens isspace row.validLeaseStr)))) := by
  have hspace : isspace space = true := by decide
  have hnewline : isspace newline = true := by decide
  rw [printedRow, Scan.tokens_append_delim hspace, Scan.tokens_append_delim hspace,
    Scan.tokens_append_delim hspace, Scan.tokens_append_delim hspace,
    Scan.tokens_append_delim hspace, Scan.tokens_append_delim hnewline]
  simp only [tokens_padRight]
  rw [show Scan.tokens isspace [] = [] from rfl, List.append_nil]

/-- The remaining time is one word, or the three words of an expired lease. -/
theorem tokens_remainingStr {remaining : ℤ} (h : remaining < 2 ^ 63) :
    (0 < remaining ∧ Scan.tokens isspace (remainingStr remaining) = [remainingStr remaining] ∧
        remainingStr remaining ≠ str "Da") ∨
      (remaining ≤ 0 ∧
        Scan.tokens isspace (remainingStr remaining) = [str "Da", str "het", str "han"]) := by
  by_cases hpos : 0 < remaining
  · have hread := readRemaining_remainingStr h
    rw [if_pos hpos] at hread
    have hne : ∀ s, readRemaining s = none → remainingStr remaining ≠ s := by
      rintro s hs rfl
      rw [hread] at hs
      cases hs
    refine .inl ⟨hpos, Word.tokens ⟨hne [] (by decide), ?_⟩, hne _ (by decide)⟩
    intro b hb
    unfold remainingStr at hb
    rw [if_pos hpos] at hb
    have hclean : ∀ d < 10, isspace (UInt8.ofNat (48 + d)) = false := by decide
    have hdigit : ∀ n, b ∈ decimal2 n → isspace b = false := by
      intro n hmem
      by_contra hspace
      refine not_mem_decimal2 (fun d hd heq => hspace ?_) hmem
      rw [heq]
      exact hclean d hd
    have hmark : ∀ t : CString, (t.all fun b => !isspace b) = true → b ∈ t →
        isspace b = false := fun t ht hmem => clean_of_all ht b hmem
    have hmem := List.mem_of_mem_take hb
    simp only [List.mem_append] at hmem
    rcases hmem with ((((hmem | hmem) | hmem) | hmem) | hmem) | hmem
    · exact hdigit _ hmem
    · exact hmark (str "h:") (by decide) hmem
    · exact hdigit _ hmem
    · exact hmark (str "m:") (by decide) hmem
    · exact hdigit _ hmem
    · exact hmark (str "s") (by decide) hmem
  · refine .inr ⟨not_lt.mp hpos, ?_⟩
    rw [remainingStr, if_neg hpos]
    decide

/-- The first word of the range column tells the mark. -/
theorem tokens_inRangeStr (startIpNum endIpNumeric : ℕ) (ip : CString) :
    ∃ first rest, Scan.tokens isspace (inRangeStr startIpNum endIpNumeric ip).1 = first :: rest ∧
      (first = yes ↔ (inRangeStr startIpNum endIpNumeric ip).2 = true) := by
  unfold inRangeStr
  dsimp only
  split_ifs
  · exact ⟨yes, [], by decide, iff_of_true rfl rfl⟩
  · exact ⟨str "No", [], by decide, iff_of_false (by decide) not_false⟩
  · exact ⟨str "Invalid", [str "IP"], by decide, iff_of_false (by decide) not_false⟩
  · exact ⟨str "N/A", [str "(EndIP", str "Err"], by decide,
      iff_of_false (by decide) not_false⟩
  · exact ⟨str "No", [], by decide, iff_of_false (by decide) not_false⟩

/-- The last column is one word. -/
theorem tokens_validLeaseStr (leasetimeSeconds remaining : ℤ) :
    ∃ mark, Scan.tokens isspace (validLeaseStr leasetimeSeconds remaining) = [mark] ∧
      (mark = yes ↔ 0 < remaining ∧ remaining ≤ leasetimeSeconds) := by
  unfold validLeaseStr
  split_ifs with hpos hle
  · exact ⟨yes, by decide, iff_of_true rfl ⟨hpos, hle⟩⟩
  · exact ⟨str ">Cfg", by decide, iff_of_false (by decide) fun h => hle h.2⟩
  · exact ⟨str "No", by decide, iff_of_false (by decide) fun h => hpos h.1⟩

/-- The row shows the lease: its words, the seconds it still runs, whether it runs out within the
configured time, and whether its number is one of the range that is computed.  Of dotted quads, in
a range that does not leave the last octet, the mark tells whether the address is in the range. -/
structure Shows (cfg : Config) (now : ℤ) (lease : Lease) (shown : ShownRow) : Prop where
  macAddr : shown.macAddr = lease.macAddr
  ipAddrStr : shown.ipAddrStr = lease.ipAddrStr
  hostname : shown.hostname = lease.hostname
  remaining : shown.remaining =
    if 0 < lease.expiryTime - now then some (lease.expiryTime - now).toNat else none
  validLease : shown.validLease = true ↔
    0 < lease.expiryTime - now ∧ lease.expiryTime - now ≤ cfg.leasetimeSeconds
  inRange : shown.inRange = true ↔ InRange cfg lease.ipAddrStr
  ofQuads : ∀ a b c d a' b' c' d', IpAddress.Quad cfg.startIpStr a b c d →
    (a, b, c, d) ≠ (0, 0, 0, 0) → 1 ≤ cfg.limit.toInt → d + cfg.limit.toInt - 1 ≤ 255 →
    IpAddress.Quad lease.ipAddrStr a' b' c' d' →
    (shown.inRange = true ↔ Within (IpAddress.addressValue a b c d) cfg.limit.toInt
      (IpAddress.addressValue a' b' c' d'))

/-- **A printed row is read back.** -/
theorem lease_row_read_back (cfg : Config) (now : ℤ) {line : CString} {lease : Lease}
    (hlease : scanLine line = some lease) (hlow : -2 ^ 63 ≤ lease.expiryTime - now)
    (hhigh : lease.expiryTime - now < 2 ^ 63) :
    ∃ shown, readRow (printedRow (leaseRow cfg now lease)) = some shown ∧
      Shows cfg now lease shown := by
  obtain ⟨hmac, hip, hhost⟩ := scanLine_words hlease
  have hremaining : remainingTimeSec lease.expiryTime now = lease.expiryTime - now :=
    Int.bmod_eq_of_le (by omega) (by omega)
  obtain ⟨first, rest, hrange, hfirst⟩ :=
    tokens_inRangeStr cfg.startIpNum cfg.endIpNumeric lease.ipAddrStr
  obtain ⟨mark, hvalid, hmark⟩ :=
    tokens_validLeaseStr cfg.leasetimeSeconds (lease.expiryTime - now)
  rw [inRangeStr_iff] at hfirst
  obtain ⟨marks, hmarks, hhead, hlast⟩ : ∃ marks, (first :: rest) ++ [mark] = marks ∧
      marks.head? = some first ∧ marks.getLast? = some mark :=
    ⟨_, rfl, rfl, List.getLast?_concat⟩
  have hread := readRemaining_remainingStr hhigh
  have hwords : Scan.tokens isspace (printedRow (leaseRow cfg now lease)) =
      lease.macAddr :: lease.ipAddrStr :: lease.hostname ::
        (Scan.tokens isspace (remainingStr (lease.expiryTime - now)) ++ marks) := by
    rw [tokens_printedRow]
    simp only [leaseRow, hremaining, hmac.tokens, hip.tokens, hhost.tokens, hrange, hvalid, hmarks]
    rfl
  let shown : ShownRow := ⟨lease.macAddr, lease.ipAddrStr, lease.hostname,
    if 0 < lease.expiryTime - now then some (lease.expiryTime - now).toNat else none,
    decide (first = yes), decide (mark = yes)⟩
  have hshows : Shows cfg now lease shown := by
    have hinRange : shown.inRange = true ↔ InRange cfg lease.ipAddrStr := by
      rw [← hfirst]
      exact decide_eq_true_iff
    refine ⟨rfl, rfl, rfl, rfl, decide_eq_true_iff.trans hmark, hinRange, ?_⟩
    intro a b c d a' b' c' d' hstart h0 hlimit hguard hquad
    rw [hinRange, inRange_iff hstart h0 hlimit hguard, hquad.value]
  refine ⟨shown, ?_, hshows⟩
  rw [readRow, hwords]
  rcases tokens_remainingStr hhigh with ⟨hpos, htokens, hne⟩ | ⟨hpos, htokens⟩
  · rw [htokens]
    simp only [List.cons_append, List.nil_append, if_neg hne, hhead, hlast, hread,
      Option.some.injEq]
    rfl
  · have hexpired : readRemaining (str "Da") = shown.remaining :=
      (show readRemaining (str "Da") = none by decide).trans (if_neg (not_lt.mpr hpos)).symm
    rw [htokens]
    simp only [List.cons_append, List.nil_append, if_true, List.drop_succ_cons, List.drop_zero,
      hhead, hlast, hexpired, Option.some.injEq]
    rfl

/-- A lease of 100 seconds in the range. -/
theorem lease_row_read_back_100 :
    ∃ shown, readRow (printedRow (leaseRow sampleConfig 0
        ⟨100, str "aa:bb", str "192.168.1.5", str "pc"⟩)) = some shown ∧
      Shows sampleConfig 0 ⟨100, str "aa:bb", str "192.168.1.5", str "pc"⟩ shown :=
  lease_row_read_back sampleConfig 0
    (show scanLine (str "100 aa:bb 192.168.1.5 pc") = some _ from rfl) (by decide) (by decide)

end DhcpLeases
