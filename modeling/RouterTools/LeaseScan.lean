/-
# The scan of the lease file

One round of `check_dhcp_leases_with_validation`: the lease file is read line by line,
each line is taken apart by `sscanf`, and `found_ip_in_new_range` is set when the
address of a line lies between the configured start address and the end address that
is computed from it.

* `inRange_iff` : what the comparison of the packed numbers says of addresses;
* `TakenAs` : the texts that `sscanf` takes for a lease, which include lines of fewer
  than three fields: `%ld` may stop inside a field;
* `lease_scan_exact_iff` : when the flag is exact.
-/
import Mathlib.Data.List.DropRight
import RouterTools.IpAddress
import RouterTools.Lines

namespace DhcpLeases

open CString Sscanf IpAddress
open Stdio (isDigit digitsValue pieces pieces_line pieces_last cstr)

/-! ## The source -/

/-- The arguments of `check_dhcp_leases_with_validation`. -/
structure Config where
  startIpStr : CString
  limit : Int32
  leasetimeSeconds : ℤ

/-- `conf_start_ip_num`. -/
def Config.startIpNum (cfg : Config) : ℕ := ipStrToLong cfg.startIpStr

/-- The text `%u.%u.%u.%u` gives. -/
def quadText (p1 p2 p3 p4 : UInt32) : CString :=
  decimal p1.toNat ++ dot :: (decimal p2.toNat ++ dot :: (decimal p3.toNat ++
    dot :: decimal p4.toNat))

/-- `conf_end_ip_numeric`: 0 where it is not computed. -/
def Config.endIpNumeric (cfg : Config) : ℕ :=
  match sscanf ipFormat cfg.startIpStr with
  | [.unsigned p1, .unsigned p2, .unsigned p3, .unsigned p4] =>
      let endOctet4 := p4 + cfg.limit.toUInt32 - 1
      if endOctet4 ≥ p4 ∧ endOctet4 ≤ 255 then
        ipStrToLong (copyTo 20 (quadText p1 p2 p3 endOctet4))
      else 0
  | _ => 0

/-- `"%ld %19s %19s %63s"`. -/
def leaseFormat : List Directive :=
  [.long, .space, .word 19, .space, .word 19, .space, .word 63]

/-- What a line is taken apart into. -/
structure Lease where
  expiryTime : ℤ
  macAddr : CString
  ipAddrStr : CString
  hostname : CString

/-- The items of a line; `none` where there are fewer than three and the line is
skipped. -/
def scanLine (line : CString) : Option Lease :=
  match sscanf leaseFormat line with
  | [.long expiry, .word mac, .word ip] => some ⟨expiry, mac, ip, str "*"⟩
  | [.long expiry, .word mac, .word ip, .word host] => some ⟨expiry, mac, ip, host⟩
  | _ => none

/-- The text `%02ld` gives for a number that is not negative. -/
def decimal2 (n : ℕ) : CString := if n < 10 then 48 :: decimal n else decimal n

/-- `remaining_str`. -/
def remainingStr (remaining : ℤ) : CString :=
  if remaining > 0 then
    copyTo 64 (decimal2 (remaining.toNat / 3600) ++ str "h:" ++
      decimal2 (remaining.toNat % 3600 / 60) ++ str "m:" ++ decimal2 (remaining.toNat % 60) ++ str "s")
  else str "Da het han"

/-- `valid_lease_str`. -/
def validLeaseStr (leasetimeSeconds remaining : ℤ) : CString :=
  if remaining > 0 then
    if remaining ≤ leasetimeSeconds then copyTo 5 (str "Yes") else copyTo 5 (str ">Cfg")
  else str "No"

/-- `in_range_str`, and whether `found_ip_in_new_range` is set. -/
def inRangeStr (startIpNum endIpNumeric : ℕ) (ipAddrStr : CString) : CString × Bool :=
  if startIpNum ≠ 0 ∧ endIpNumeric ≠ 0 then
    let leased := ipStrToLong ipAddrStr
    if leased ≠ 0 ∧ leased ≥ startIpNum ∧ leased ≤ endIpNumeric then (copyTo 15 (str "Yes"), true)
    else if leased ≠ 0 then (copyTo 15 (str "No"), false)
    else (copyTo 15 (str "Invalid IP"), false)
  else if startIpNum ≠ 0 then (copyTo 15 (str "N/A (EndIP Err)"), false)
  else (str "No", false)

/-- A row of the table that is printed. -/
structure Row where
  macAddr : CString
  ipAddrStr : CString
  hostname : CString
  remainingStr : CString
  inRangeStr : CString
  validLeaseStr : CString
  deriving DecidableEq

/-- `remaining_time_sec`: the difference of two `long`s. -/
def remainingTimeSec (expiryTime now : ℤ) : ℤ := (expiryTime - now).bmod (2 ^ 64)

/-- The row of a lease. -/
def leaseRow (cfg : Config) (now : ℤ) (lease : Lease) : Row where
  macAddr := lease.macAddr
  ipAddrStr := lease.ipAddrStr
  hostname := lease.hostname
  remainingStr := remainingStr (remainingTimeSec lease.expiryTime now)
  inRangeStr := (inRangeStr cfg.startIpNum cfg.endIpNumeric lease.ipAddrStr).1
  validLeaseStr :=
    validLeaseStr cfg.leasetimeSeconds (remainingTimeSec lease.expiryTime now)

/-- The lines in the buffer, one after another, with `found_ip_in_new_range` and the rows
printed. -/
def scanLines (cfg : Config) (now : ℤ) : Bool → List CString → Bool × List Row
  | found, [] => (found, [])
  | found, line :: lines =>
      match scanLine line with
      | none => scanLines cfg now found lines
      | some lease =>
          let hit := (inRangeStr cfg.startIpNum cfg.endIpNumeric lease.ipAddrStr).2
          let r := scanLines cfg now (found || hit) lines
          (r.1, leaseRow cfg now lease :: r.2)

/-- The scan of a lease file; the buffer has 256 bytes. -/
def scanFile (cfg : Config) (now : ℤ) (found : Bool) (file : List UInt8) : Bool × List Row :=
  scanLines cfg now found ((pieces 256 file).map cstr)

/-! ## The range -/

/-- The guard of the range: the last octet does not pass 255, in 32-bit arithmetic. -/
def Config.Guard (cfg : Config) : Prop :=
  ∃ p1 p2 p3 p4, FourNumbers cfg.startIpStr p1 p2 p3 p4 ∧
    p4 ≤ p4 + cfg.limit.toUInt32 - 1 ∧ p4 + cfg.limit.toUInt32 - 1 ≤ 255

theorem endIpNumeric_of_fourNumbers {cfg : Config} {p1 p2 p3 p4 : UInt32}
    (h : FourNumbers cfg.startIpStr p1 p2 p3 p4) :
    cfg.endIpNumeric =
      if p4 + cfg.limit.toUInt32 - 1 ≥ p4 ∧ p4 + cfg.limit.toUInt32 - 1 ≤ 255 then
        ipStrToLong (copyTo 20 (quadText p1 p2 p3 (p4 + cfg.limit.toUInt32 - 1)))
      else 0 := by
  rw [Config.endIpNumeric, sscanf_ipFormat_iff.mpr h]

/-- Where the guard fails there is no end address. -/
theorem endIpNumeric_of_not_guard {cfg : Config} (h : ¬ cfg.Guard) : cfg.endIpNumeric = 0 := by
  unfold Config.endIpNumeric
  split
  · rename_i p1 p2 p3 p4 heq
    dsimp only
    rw [if_neg]
    rintro ⟨hge, hle⟩
    exact h ⟨p1, p2, p3, p4, sscanf_ipFormat_iff.mp heq, hge, hle⟩
  · rfl

theorem decimal_octet {v : ℕ} (hv : v ≤ 255) : Octet (decimal v) v := by
  refine ⟨⟨decimal_ne_nil v, fun b hb => ?_⟩, Stdio.digitsValue_decimal v, hv⟩
  obtain ⟨d, hd, rfl⟩ := mem_decimal hb
  have hdigit : ∀ d < 10, isDigit (UInt8.ofNat (48 + d)) = true := by decide
  exact hdigit d hd

theorem length_decimal_octet {v : ℕ} (hv : v ≤ 255) : (decimal v).length ≤ 3 :=
  (length_decimal_le_iff (by decide)).mpr (by omega)

/-- A rendered address is a dotted quad that fits into its buffer. -/
theorem quadText_quad {p1 p2 p3 p4 : UInt32} (h1 : p1.toNat ≤ 255) (h2 : p2.toNat ≤ 255)
    (h3 : p3.toNat ≤ 255) (h4 : p4.toNat ≤ 255) :
    Quad (copyTo 20 (quadText p1 p2 p3 p4)) p1.toNat p2.toNat p3.toNat p4.toNat := by
  have hlen : (quadText p1 p2 p3 p4).length ≤ 20 - 1 := by
    have l1 := length_decimal_octet h1
    have l2 := length_decimal_octet h2
    have l3 := length_decimal_octet h3
    have l4 := length_decimal_octet h4
    simp only [quadText, List.length_append, List.length_cons]
    omega
  rw [copyTo_of_le hlen]
  exact ⟨_, _, _, _, decimal_octet h1, decimal_octet h2, decimal_octet h3, decimal_octet h4, rfl⟩

/-- The last octet of the end address, which a positive limit cannot wrap around. -/
theorem toNat_endOctet {d : ℕ} (hd : d ≤ 255) {limit : Int32} (hlimit : 1 ≤ limit.toInt) :
    (UInt32.ofNat d + limit.toUInt32 - 1).toNat = d + limit.toInt.toNat - 1 := by
  have hpos : (0 : Int32) ≤ limit := by
    rw [Int32.le_iff_toInt_le]
    exact le_trans (by decide) hlimit
  have hmax := limit.toInt_lt
  have hn : limit.toUInt32.toNat = limit.toInt.toNat := Int32.toNat_toUInt32_of_le hpos
  rw [UInt32.toNat_sub, UInt32.toNat_add, hn, UInt32.toNat_ofNat']
  simp only [UInt32.toNat_one]
  omega

theorem toNat_octet {v : ℕ} (hv : v ≤ 255) : (UInt32.ofNat v).toNat = v := by
  rw [UInt32.toNat_ofNat']
  omega

theorem endOctet_passes_iff {d : ℕ} (hd : d ≤ 255) {limit : Int32} (hlimit : 1 ≤ limit.toInt) :
    (UInt32.ofNat d ≤ UInt32.ofNat d + limit.toUInt32 - 1 ∧
      UInt32.ofNat d + limit.toUInt32 - 1 ≤ 255) ↔ d + limit.toInt - 1 ≤ 255 := by
  have h255 : (255 : UInt32).toNat = 255 := rfl
  rw [UInt32.le_iff_toNat_le, UInt32.le_iff_toNat_le, toNat_endOctet hd hlimit, toNat_octet hd, h255]
  omega

/-- For a dotted quad and a positive limit the guard is that the last address of the
range is in the block of the first. -/
theorem guard_iff {cfg : Config} {a b c d : ℕ} (hstart : Quad cfg.startIpStr a b c d)
    (hlimit : 1 ≤ cfg.limit.toInt) : cfg.Guard ↔ d + cfg.limit.toInt - 1 ≤ 255 := by
  rw [← endOctet_passes_iff hstart.le.2.2.2 hlimit]
  constructor
  · rintro ⟨p1, p2, p3, p4, hfour, hpass⟩
    have hitems := (sscanf_ipFormat_iff.mpr hfour).symm.trans
      (sscanf_ipFormat_iff.mpr hstart.fourNumbers)
    simp only [List.cons.injEq, Item.unsigned.injEq] at hitems
    rw [hitems.2.2.2.1] at hpass
    exact hpass
  · exact fun hpass => ⟨_, _, _, _, hstart.fourNumbers, hpass⟩

/-- **The range** of a dotted quad and a limit that passes the guard. -/
theorem endIpNumeric_of_quad {cfg : Config} {a b c d : ℕ} (hstart : Quad cfg.startIpStr a b c d)
    (hlimit : 1 ≤ cfg.limit.toInt) (hguard : d + cfg.limit.toInt - 1 ≤ 255) :
    (cfg.endIpNumeric : ℤ) = addressValue a b c d + cfg.limit.toInt - 1 := by
  obtain ⟨ha, hb, hc, hd⟩ := hstart.le
  have hlast := toNat_endOctet hd hlimit
  have hoctet : ∀ {n : ℕ}, n ≤ 255 → (UInt32.ofNat n).toNat ≤ 255 := by
    intro n hn
    rw [toNat_octet hn]
    exact hn
  have hend : (UInt32.ofNat d + cfg.limit.toUInt32 - 1).toNat ≤ 255 := by
    rw [hlast]
    omega
  have hquad := quadText_quad (hoctet ha) (hoctet hb) (hoctet hc) hend
  rw [endIpNumeric_of_fourNumbers hstart.fourNumbers,
    if_pos ((endOctet_passes_iff hd hlimit).mpr hguard), hquad.value, hlast, toNat_octet ha,
    toNat_octet hb, toNat_octet hc]
  simp only [addressValue]
  omega

/-! ## The lines -/

/-- `sscanf` takes the line for a lease of the address text `ip`: a number, then two
words of at most 19 bytes, with white space between them or without. -/
def TakenAs (line ip : CString) : Prop :=
  ∃ negative digits t gap₁ mac gap₂ rest, NumberText negative digits t ∧ Blank gap₁ ∧
    EndsBefore isDigit (gap₁ ++ mac) ∧ WordText 19 mac (gap₂ ++ ip) ∧ Blank gap₂ ∧
    WordText 19 ip rest ∧ line = t ++ (gap₁ ++ (mac ++ (gap₂ ++ (ip ++ rest))))

/-- White space in front of a word may be skipped by the format as well. -/
theorem sscanf_space_word (width : ℕ) (format : List Directive) (input : CString) :
    sscanf (.space :: .word width :: format) input = sscanf (.word width :: format) input := by
  rw [sscanf, sscanf, sscanf, scanWord, scanWord, List.dropWhile_idempotent]

/-- Only the beginning of a text that is not empty matters. -/
theorem endsBefore_append {kind : UInt8 → Bool} {word : CString} (hne : word ≠ []) (rest : CString) :
    EndsBefore kind (word ++ rest) ↔ EndsBefore kind word := by
  obtain ⟨b, ws, rfl⟩ := List.exists_cons_of_ne_nil hne
  exact Iff.rfl

theorem wordText_append {width : ℕ} {word text : CString} (hne : text ≠ []) (rest : CString) :
    WordText width word (text ++ rest) ↔ WordText width word text := by
  rw [WordText, WordText, endsBefore_append hne]

/-- The last word of a line, if there is one. -/
theorem sscanf_last_word (width : ℕ) (input : CString) :
    sscanf [.space, .word width] input = [] ∨
      ∃ word, sscanf [.space, .word width] input = [.word word] := by
  rw [sscanf_space_word, sscanf]
  split
  · exact .inl rfl
  · exact .inr ⟨_, rfl⟩

/-- The items of a line that is not skipped. -/
theorem scanLine_eq_some {line : CString} {lease : Lease} (h : scanLine line = some lease) :
    ∃ expiry mac items,
      sscanf leaseFormat line = .long expiry :: .word mac :: .word lease.ipAddrStr :: items := by
  unfold scanLine at h
  split at h
  · rename_i heq
    cases h
    exact ⟨_, _, _, heq⟩
  · rename_i heq
    cases h
    exact ⟨_, _, _, heq⟩
  · cases h

/-- **A line is taken for a lease** exactly when it has the text of one. -/
theorem scanLine_iff {line ip : CString} :
    (∃ lease, scanLine line = some lease ∧ lease.ipAddrStr = ip) ↔ TakenAs line ip := by
  constructor
  · rintro ⟨lease, hlease, rfl⟩
    obtain ⟨expiry, mac, items, h⟩ := scanLine_eq_some hlease
    clear hlease
    unfold leaseFormat at h
    -- each directive takes its part off the front: the expiry, the MAC, the address
    obtain ⟨t, negative, digits, rest₁, ht, rfl, hend, -, h₁⟩ := sscanf_long_eq_cons_iff.mp h
    rw [sscanf_space_word] at h₁
    obtain ⟨gap₁, mac', rest₂, hgap₁, hmac, rfl, hmac', h₂⟩ := sscanf_word_eq_cons_iff.mp h₁
    rw [sscanf_space_word] at h₂
    obtain ⟨gap₂, ip', rest, hgap₂, hip, rfl, hip', -⟩ := sscanf_word_eq_cons_iff.mp h₂
    rw [Item.word.injEq] at hip'
    rw [hip']
    refine ⟨negative, digits, t, gap₁, mac', gap₂, rest, ht, hgap₁, ?_, ?_, hgap₂, hip, rfl⟩
    · have hne : gap₁ ++ mac' ≠ [] := by simp [hmac.1]
      rwa [← List.append_assoc, endsBefore_append hne] at hend
    · have hne : gap₂ ++ ip' ≠ [] := by simp [hip.1]
      rwa [← List.append_assoc, wordText_append hne] at hmac
  · rintro ⟨negative, digits, t, gap₁, mac, gap₂, rest, ht, hgap₁, hend, hmac, hgap₂, hip, rfl⟩
    -- the three parts are read in order, and the fourth item may be missing
    have hitems : sscanf leaseFormat (t ++ (gap₁ ++ (mac ++ (gap₂ ++ (ip ++ rest))))) =
        .long (longValue negative digits) :: .word mac :: .word ip ::
          sscanf [.space, .word 63] rest := by
      refine sscanf_long_eq_cons_iff.mpr ⟨t, negative, digits, _, ht, rfl, ?_, rfl, ?_⟩
      · have hne : gap₁ ++ mac ≠ [] := by simp [hmac.1]
        rwa [← List.append_assoc, endsBefore_append hne]
      rw [sscanf_space_word]
      refine sscanf_word_eq_cons_iff.mpr ⟨gap₁, mac, _, hgap₁, ?_, rfl, rfl, ?_⟩
      · have hne : gap₂ ++ ip ≠ [] := by simp [hip.1]
        rwa [← List.append_assoc, wordText_append hne]
      rw [sscanf_space_word]
      exact sscanf_word_eq_cons_iff.mpr ⟨gap₂, ip, rest, hgap₂, hip, rfl, rfl, rfl⟩
    rcases sscanf_last_word 63 rest with hlast | ⟨host, hlast⟩
    · exact ⟨⟨_, mac, ip, str "*"⟩, by rw [scanLine, hitems, hlast], rfl⟩
    · exact ⟨⟨_, mac, ip, host⟩, by rw [scanLine, hitems, hlast], rfl⟩

/-- A newline ends a word no more than the end of the text does. -/
theorem wordText_newline {width : ℕ} {word rest : CString} :
    WordText width word (rest ++ [newline]) ↔ WordText width word rest := by
  cases rest with
  | nil =>
      have hend : EndsBefore (fun b => !isspace b) [newline] := by
        rintro b ⟨⟩
        decide
      have hnil : EndsBefore (fun b => !isspace b) [] := by simp [EndsBefore]
      simp only [WordText, List.nil_append, hend, hnil]
  | cons b rest => exact wordText_append (List.cons_ne_nil b rest) [newline]

/-- A newline after the line does not matter. -/
theorem takenAs_newline {line ip : CString} :
    TakenAs (line ++ [newline]) ip ↔ TakenAs line ip := by
  constructor
  · rintro ⟨negative, digits, t, gap₁, mac, gap₂, rest, ht, hgap₁, hend, hmac, hgap₂, hip, heq⟩
    rcases List.eq_nil_or_concat rest with rfl | ⟨rest, c, rfl⟩
    · -- the newline would be the last byte of a word
      exfalso
      obtain ⟨word, c, rfl⟩ := (List.eq_nil_or_concat ip).resolve_left hip.1
      have hc : isspace c = false := hip.2.1 c (by simp)
      simp only [List.append_nil, List.concat_eq_append, ← List.append_assoc] at heq
      obtain ⟨-, hlast⟩ := List.append_inj' heq rfl
      cases hlast
      exact absurd hc (by decide)
    · rw [List.concat_eq_append] at hip heq
      simp only [← List.append_assoc] at heq
      obtain ⟨rfl, hlast⟩ := List.append_inj' heq rfl
      cases hlast
      refine ⟨negative, digits, t, gap₁, mac, gap₂, rest, ht, hgap₁, hend, hmac, hgap₂,
        wordText_newline.mp hip, ?_⟩
      simp only [List.append_assoc]
  · rintro ⟨negative, digits, t, gap₁, mac, gap₂, rest, ht, hgap₁, hend, hmac, hgap₂, hip, rfl⟩
    refine ⟨negative, digits, t, gap₁, mac, gap₂, rest ++ [newline], ht, hgap₁, hend, hmac, hgap₂,
      wordText_newline.mpr hip, ?_⟩
    simp only [List.append_assoc]

/-! ## The flag -/

/-- The address text is one of the range: the numbers compare as the source compares them. -/
def InRange (cfg : Config) (ip : CString) : Prop :=
  cfg.startIpNum ≠ 0 ∧ cfg.endIpNumeric ≠ 0 ∧ ipStrToLong ip ≠ 0 ∧
    cfg.startIpNum ≤ ipStrToLong ip ∧ ipStrToLong ip ≤ cfg.endIpNumeric

theorem inRangeStr_iff (cfg : Config) (ip : CString) :
    (inRangeStr cfg.startIpNum cfg.endIpNumeric ip).2 = true ↔ InRange cfg ip := by
  unfold inRangeStr InRange
  dsimp only
  split_ifs with hnum hrange hzero hstart
  · simp only [true_iff]
    exact ⟨hnum.1, hnum.2, hrange⟩
  · exact iff_of_false not_false fun h => hrange h.2.2
  · exact iff_of_false not_false fun h => hrange h.2.2
  · exact iff_of_false not_false fun h => hnum ⟨h.1, h.2.1⟩
  · exact iff_of_false not_false fun h => hnum ⟨h.1, h.2.1⟩

/-- The line is taken for a lease of the range. -/
def Hits (cfg : Config) (line : CString) : Prop := ∃ ip, TakenAs line ip ∧ InRange cfg ip

theorem hits_iff (cfg : Config) (line : CString) :
    Hits cfg line ↔ ∃ lease, scanLine line = some lease ∧
      (inRangeStr cfg.startIpNum cfg.endIpNumeric lease.ipAddrStr).2 = true := by
  simp only [Hits, inRangeStr_iff]
  constructor
  · rintro ⟨ip, htaken, hrange⟩
    obtain ⟨lease, hlease, rfl⟩ := scanLine_iff.mpr htaken
    exact ⟨lease, hlease, hrange⟩
  · rintro ⟨lease, hlease, hrange⟩
    exact ⟨lease.ipAddrStr, scanLine_iff.mp ⟨lease, hlease, rfl⟩, hrange⟩

/-- **The flag is set** exactly by the lines taken for a lease of the range. -/
theorem scanLines_found (cfg : Config) (now : ℤ) (found : Bool) (lines : List CString) :
    (scanLines cfg now found lines).1 = true ↔ found = true ∨ ∃ line ∈ lines, Hits cfg line := by
  induction lines generalizing found with
  | nil => simp [scanLines]
  | cons line lines ih =>
      rw [List.exists_mem_cons_iff, hits_iff, scanLines]
      cases hlease : scanLine line with
      | none => simp [ih]
      | some lease => simp [ih, or_assoc]

/-- The C string of a line and of the line with its newline differ in the newline at most. -/
theorem cstr_append_newline (l : List UInt8) :
    cstr (l ++ [newline]) = cstr l ∨ cstr (l ++ [newline]) = cstr l ++ [newline] := by
  unfold cstr
  rw [List.takeWhile_append]
  split_ifs with hlen
  · right
    rw [(List.takeWhile_prefix _).eq_of_length hlen]
    rfl
  · exact .inl rfl

/-- A file of lines that fit into the buffer is read line by line. -/
theorem exists_piece_iff {P : CString → Prop} (hP : ∀ s, P (s ++ [newline]) ↔ P s)
    (hnil : ¬ P []) {lines : List (List UInt8)}
    (hlines : ∀ l ∈ lines, newline ∉ l ∧ l.length < 255) :
    (∃ p ∈ (pieces 256 (List.intercalate [newline] lines)).map cstr, P p) ↔
      ∃ l ∈ lines, P (cstr l) := by
  -- the newline at the end of a piece does not matter
  have hcstr : ∀ l, P (cstr (l ++ [newline])) ↔ P (cstr l) := by
    intro l
    rcases cstr_append_newline l with h | h
    · rw [h]
    · rw [h, hP]
  induction lines with
  | nil => simp
  | cons l ls ih =>
      obtain ⟨hnew, hlen⟩ := hlines l List.mem_cons_self
      have hls : ∀ l ∈ ls, newline ∉ l ∧ l.length < 255 :=
        fun x hx => hlines x (List.mem_cons_of_mem l hx)
      cases ls with
      | nil =>
          rw [List.intercalate_singleton]
          by_cases hl : l = []
          · subst hl
            simpa [cstr] using hnil
          · rw [pieces_last hnew (by omega) hl]
            simp
      | cons l' ls =>
          rw [List.intercalate_cons_cons, List.append_assoc, List.singleton_append,
            pieces_line hnew (by omega), List.map_cons, List.exists_mem_cons_iff, hcstr,
            List.exists_mem_cons_iff]
          exact or_congr Iff.rfl (ih hls)

/-! ## Lease files -/

/-- The text of a field: no white space and no NUL. -/
def Field (word : CString) : Prop := word ≠ [] ∧ ∀ b ∈ word, isspace b = false ∧ b ≠ 0

instance (word : CString) : Decidable (Field word) :=
  @instDecidableAnd _ _ _ (List.decidableBAll (fun b => isspace b = false ∧ b ≠ 0) word)

/-- The address of a lease: a dotted quad or a text without a dot. -/
def LeaseIp (ip : CString) : Prop := (∃ a b c d, Quad ip a b c d) ∨ dot ∉ ip

/-- `expiry mac ip [hostname ...]`. -/
def LeaseLine (line ip : CString) : Prop :=
  ∃ expiry gap₁ mac gap₂ rest, Digits expiry ∧ (Blank gap₁ ∧ gap₁ ≠ []) ∧
    (Field mac ∧ mac.length ≤ 19) ∧ (Blank gap₂ ∧ gap₂ ≠ []) ∧ (Field ip ∧ LeaseIp ip) ∧
    EndsBefore (fun b => !isspace b) rest ∧
    line = expiry ++ (gap₁ ++ (mac ++ (gap₂ ++ (ip ++ rest))))

/-- A line of fewer than three fields. -/
def Short (line : CString) : Prop := (Scan.tokens isspace line).length < 3

/-- `start <= v <= start + limit - 1`. -/
def Within (start : ℕ) (limit : ℤ) (v : ℕ) : Prop := (start : ℤ) ≤ v ∧ (v : ℤ) ≤ start + limit - 1

/-- Some lease line, with an address field of the kind, has an address of the range. -/
def LeaseWithin (kind : CString → Prop) (start : ℕ) (limit : ℤ) (lines : List CString) : Prop :=
  ∃ l ∈ lines, ∃ ip a b c d, LeaseLine l ip ∧ kind ip ∧ Quad ip a b c d ∧
    Within start limit (addressValue a b c d)

/-- Some lease line has an address of the range. -/
def SomeLeaseWithin (start : ℕ) (limit : ℤ) (lines : List CString) : Prop :=
  LeaseWithin (fun _ => True) start limit lines

/-- What `%19s` takes whole. -/
def Scannable (ip : CString) : Prop := ip.length ≤ 19

/-- A line that is no lease line, or one whose address, padded with zeros, is cut. -/
def Misread (line : CString) : Prop :=
  Short line ∨ ∃ ip a b c d, LeaseLine line ip ∧ ¬ Scannable ip ∧ Quad ip a b c d

/-- The line is split into a number and two words, and the second word begins with four numbers
that are packed into one of the range. -/
def TakenWithin (start : ℕ) (limit : ℤ) (line : CString) : Prop :=
  ∃ ip p1 p2 p3 p4, TakenAs (cstr line) ip ∧ FourNumbers ip p1 p2 p3 p4 ∧
    Within start limit (pack p1 p2 p3 p4).toNat

theorem addressValue_ne_zero {a b c d : ℕ} (h : (a, b, c, d) ≠ (0, 0, 0, 0)) :
    addressValue a b c d ≠ 0 := by
  intro hzero
  simp only [addressValue] at hzero
  apply h
  simp only [Prod.mk.injEq]
  omega

/-- The source's comparison is that of the range. -/
theorem inRange_iff {cfg : Config} {a b c d : ℕ} (hstart : Quad cfg.startIpStr a b c d)
    (h0 : (a, b, c, d) ≠ (0, 0, 0, 0)) (hlimit : 1 ≤ cfg.limit.toInt)
    (hguard : d + cfg.limit.toInt - 1 ≤ 255) (ip : CString) :
    InRange cfg ip ↔ Within (addressValue a b c d) cfg.limit.toInt (ipStrToLong ip) := by
  have hend := endIpNumeric_of_quad hstart hlimit hguard
  have hnum : cfg.startIpNum = addressValue a b c d := hstart.value
  have hpos := addressValue_ne_zero h0
  rw [InRange, Within, hnum]
  omega

/-- A line is taken for a lease in one way only. -/
theorem TakenAs.unique {line ip ip' : CString} (h : TakenAs line ip) (h' : TakenAs line ip') :
    ip = ip' := by
  obtain ⟨lease, hlease, rfl⟩ := scanLine_iff.mpr h
  obtain ⟨lease', hlease', rfl⟩ := scanLine_iff.mpr h'
  rw [hlease] at hlease'
  cases hlease'
  rfl

/-- The NUL ends a text behind bytes that are none. -/
theorem cstr_append {word : CString} (hword : ∀ b ∈ word, b ≠ 0) (rest : List UInt8) :
    cstr (word ++ rest) = word ++ cstr rest :=
  List.takeWhile_append_of_pos fun b hb => by simpa using hword b hb

theorem Blank.ne_zero {gap : CString} (h : Blank gap) : ∀ b ∈ gap, b ≠ 0 := by
  rintro b hb rfl
  exact absurd (h 0 hb) (by decide)

theorem Digits.ne_zero {digits : CString} (h : Digits digits) : ∀ b ∈ digits, b ≠ 0 := by
  rintro b hb rfl
  exact absurd (h.2 0 hb) (by decide)

/-- A gap ends a number and a word. -/
theorem Blank.endsBefore {gap : CString} (h : Blank gap) (hne : gap ≠ []) (rest : CString) :
    EndsBefore isDigit (gap ++ rest) ∧ EndsBefore (fun b => !isspace b) (gap ++ rest) := by
  obtain ⟨g, gs, rfl⟩ := List.exists_cons_of_ne_nil hne
  have hg : isspace g = true := h g List.mem_cons_self
  constructor <;> rintro b ⟨⟩
  · by_contra hdigit
    rw [Bool.not_eq_false] at hdigit
    rw [isspace_of_isDigit hdigit] at hg
    cases hg
  · show (!isspace g) = false
    rw [hg]
    rfl

/-- **A lease line is taken for its lease**, the address cut to 19 bytes. -/
theorem LeaseLine.takenAs {line ip : CString} (h : LeaseLine line ip) :
    TakenAs (cstr line) (ip.take 19) := by
  obtain ⟨expiry, gap₁, mac, gap₂, rest, hdigits, ⟨hgap₁, hne₁⟩, ⟨hmac, hmaclen⟩,
    ⟨hgap₂, hne₂⟩, ⟨hip, -⟩, hrest, rfl⟩ := h
  rw [cstr_append (Digits.ne_zero hdigits), cstr_append (Blank.ne_zero hgap₁),
    cstr_append fun b hb => (hmac.2 b hb).2, cstr_append (Blank.ne_zero hgap₂),
    cstr_append fun b hb => (hip.2 b hb).2]
  refine ⟨false, expiry, expiry, gap₁, mac, gap₂, ip.drop 19 ++ cstr rest,
    ⟨hdigits, [], [], by simp [Blank], .inl rfl, rfl⟩, hgap₁, (Blank.endsBefore hgap₁ hne₁ _).1,
    ⟨hmac.1, fun b hb => (hmac.2 b hb).1, ?_⟩, hgap₂, ⟨?_, ?_, ?_⟩, ?_⟩
  · rcases Nat.lt_or_eq_of_le hmaclen with hlt | heq
    · exact .inr ⟨hlt, (Blank.endsBefore hgap₂ hne₂ _).2⟩
    · exact .inl heq
  · simp [hip.1]
  · exact fun b hb => (hip.2 b (List.mem_of_mem_take hb)).1
  · rcases Nat.lt_or_ge ip.length 19 with hlt | hge
    · rw [List.take_of_length_le hlt.le, List.drop_eq_nil_of_le hlt.le, List.nil_append]
      refine .inr ⟨hlt, ?_⟩
      -- what the NUL leaves of the rest of the line begins as the rest does
      cases rest with
      | nil => simp [cstr, EndsBefore]
      | cons b rest =>
          have hb : isspace b = true := by simpa using hrest b rfl
          have hb0 : b ≠ 0 := by
            rintro rfl
            exact absurd hb (by decide)
          rw [cstr, List.takeWhile_cons_of_pos (by simpa using hb0)]
          rintro c ⟨⟩
          show (!isspace b) = false
          rw [hb]
          rfl
    · exact .inl (List.length_take_of_le hge)
  · rw [← List.append_assoc (ip.take 19), List.take_append_drop]

/-- Text without a dot has no address. -/
theorem ipStrToLong_of_no_dot {s : CString} (h : dot ∉ s) : ipStrToLong s = 0 := by
  rcases ipStrToLong_cases s with ⟨p1, p2, p3, p4, t₁, t₂, t₃, t₄, rest, -, -, -, -, -, rfl⟩ | hzero
  · exact absurd (List.mem_append_right _ List.mem_cons_self) h
  · exact hzero

/-- A line is taken for one of the range by the number of its address text. -/
theorem takenWithin_iff_value {start : ℕ} (hstart : start ≠ 0) (limit : ℤ) (line : CString) :
    TakenWithin start limit line ↔
      ∃ ip, TakenAs (cstr line) ip ∧ Within start limit (ipStrToLong ip) := by
  constructor
  · rintro ⟨ip, p1, p2, p3, p4, htaken, hfour, hwithin⟩
    rw [← ipStrToLong_of_fourNumbers hfour] at hwithin
    exact ⟨ip, htaken, hwithin⟩
  · rintro ⟨ip, htaken, hwithin⟩
    rcases ipStrToLong_cases ip with ⟨p1, p2, p3, p4, hfour⟩ | hzero
    · rw [ipStrToLong_of_fourNumbers hfour] at hwithin
      exact ⟨ip, p1, p2, p3, p4, htaken, hfour, hwithin⟩
    · -- no number of the range is the error value
      rw [hzero] at hwithin
      exact absurd (Int.natCast_nonpos_iff.mp hwithin.1) hstart

/-- The lease line of an address of the range, where the address is not cut. -/
theorem LeaseLine.takenWithin_iff {line ip : CString} (h : LeaseLine line ip)
    (hcut : Scannable ip ∨ dot ∉ ip) {start : ℕ} (hstart : start ≠ 0) (limit : ℤ) :
    TakenWithin start limit line ↔
      ∃ a b c d, Quad ip a b c d ∧ Within start limit (addressValue a b c d) := by
  -- the scan takes the first 19 bytes of the address
  have htaken : TakenWithin start limit line ↔ Within start limit (ipStrToLong (ip.take 19)) := by
    rw [takenWithin_iff_value hstart]
    constructor
    · rintro ⟨ip', hip', hwithin⟩
      rw [h.takenAs.unique hip']
      exact hwithin
    · exact fun hwithin => ⟨_, h.takenAs, hwithin⟩
  rw [htaken]
  obtain ⟨-, -, -, -, -, -, -, -, -, ⟨-, hip⟩, -⟩ := h
  by_cases hdot : dot ∈ ip
  · obtain ⟨a, b, c, d, hquad⟩ := hip.resolve_right (not_not_intro hdot)
    have hlen : ip.length ≤ 19 := hcut.resolve_right (not_not_intro hdot)
    rw [List.take_of_length_le hlen, hquad.value]
    constructor
    · exact fun hwithin => ⟨a, b, c, d, hquad, hwithin⟩
    · rintro ⟨a', b', c', d', hquad', hwithin⟩
      rw [← hquad.value, hquad'.value]
      exact hwithin
  · rw [ipStrToLong_of_no_dot fun hmem => hdot (List.mem_of_mem_take hmem)]
    constructor
    · rintro ⟨hle, -⟩
      omega
    · rintro ⟨a, b, c, d, ⟨t₁, t₂, t₃, t₄, -, -, -, -, rfl⟩, -⟩
      exact absurd (List.mem_append_right _ List.mem_cons_self) hdot

/-! ## The scan of a file -/

theorem not_hits_nil (cfg : Config) : ¬ Hits cfg [] := by
  rintro ⟨ip, ⟨negative, digits, t, gap₁, mac, gap₂, rest, -, -, -, hmac, -, -, heq⟩, -⟩
  have hlen := congrArg List.length heq
  have hpos := List.length_pos_iff.mpr hmac.1
  simp only [List.length_nil, List.length_append] at hlen
  omega

/-- **The flag after a file** of lines that fit into the buffer. -/
theorem scanFile_found (cfg : Config) (now : ℤ) {lines : List (List UInt8)}
    (hlines : ∀ l ∈ lines, newline ∉ l ∧ l.length < 255) :
    (scanFile cfg now false (List.intercalate [newline] lines)).1 = true ↔
      ∃ l ∈ lines, Hits cfg (cstr l) := by
  have hnewline : ∀ s, Hits cfg (s ++ [newline]) ↔ Hits cfg s := by
    intro s
    simp only [Hits, takenAs_newline]
  rw [scanFile, scanLines_found, exists_piece_iff hnewline (not_hits_nil cfg) hlines]
  simp

/-- Without an end address nothing is found. -/
theorem scanFile_of_not_guard {cfg : Config} (h : ¬ cfg.Guard) (now : ℤ) (file : List UInt8) :
    (scanFile cfg now false file).1 = false := by
  rw [← Bool.not_eq_true, scanFile, scanLines_found]
  rintro (hfalse | ⟨line, -, ip, -, hrange⟩)
  · cases hfalse
  · exact hrange.2.1 (endIpNumeric_of_not_guard h)

/-- The lines of a lease file: lease lines, and lines of fewer than three fields. -/
def LeaseFile (lines : List CString) : Prop :=
  ∀ l ∈ lines, newline ∉ l ∧ l.length < 255 ∧ ((∃ ip, LeaseLine l ip) ∨ Short l)

theorem someLeaseWithin_iff (start : ℕ) (limit : ℤ) (lines : List CString) :
    SomeLeaseWithin start limit lines ↔
      LeaseWithin Scannable start limit lines ∨
        LeaseWithin (fun ip => ¬ Scannable ip) start limit lines := by
  constructor
  · rintro ⟨l, hl, ip, a, b, c, d, hip, -, hquad, hwithin⟩
    by_cases hcut : Scannable ip
    · exact .inl ⟨l, hl, ip, a, b, c, d, hip, hcut, hquad, hwithin⟩
    · exact .inr ⟨l, hl, ip, a, b, c, d, hip, hcut, hquad, hwithin⟩
  · rintro (⟨l, hl, ip, a, b, c, d, hip, -, h⟩ | ⟨l, hl, ip, a, b, c, d, hip, -, h⟩)
    · exact ⟨l, hl, ip, a, b, c, d, hip, trivial, h⟩
    · exact ⟨l, hl, ip, a, b, c, d, hip, trivial, h⟩

/-- **The lines that are taken** for one of the range: the leases of the range whose address is
not cut, and lines that are misread. -/
theorem exists_takenWithin_iff {start : ℕ} (hstart : start ≠ 0) (limit : ℤ) {lines : List CString}
    (hfile : LeaseFile lines) :
    (∃ l ∈ lines, TakenWithin start limit l) ↔
      LeaseWithin Scannable start limit lines ∨
        ∃ l ∈ lines, Misread l ∧ TakenWithin start limit l := by
  constructor
  · rintro ⟨l, hl, htaken⟩
    rcases (hfile l hl).2.2 with ⟨ip, hip⟩ | hshort
    · by_cases hcut : Scannable ip ∨ dot ∉ ip
      · left
        obtain ⟨a, b, c, d, hquad, hwithin⟩ := (hip.takenWithin_iff hcut hstart limit).mp htaken
        have hdot : dot ∈ ip := by
          obtain ⟨t₁, t₂, t₃, t₄, -, -, -, -, rfl⟩ := hquad
          exact List.mem_append_right _ List.mem_cons_self
        exact ⟨l, hl, ip, a, b, c, d, hip, hcut.resolve_right (not_not_intro hdot), hquad, hwithin⟩
      · right
        obtain ⟨hlong, hdot⟩ := not_or.mp hcut
        obtain ⟨-, -, -, -, -, -, -, -, -, ⟨-, haddr⟩, -⟩ := id hip
        obtain ⟨a, b, c, d, hquad⟩ := haddr.resolve_right hdot
        exact ⟨l, hl, .inr ⟨ip, a, b, c, d, hip, hlong, hquad⟩, htaken⟩
    · exact .inr ⟨l, hl, .inl hshort, htaken⟩
  · rintro (⟨l, hl, ip, a, b, c, d, hip, hcut, hquad, hwithin⟩ | ⟨l, hl, -, htaken⟩)
    · exact ⟨l, hl, (hip.takenWithin_iff (.inl hcut) hstart limit).mpr ⟨a, b, c, d, hquad, hwithin⟩⟩
    · exact ⟨l, hl, htaken⟩

/-- **When the range classification is exact.**  For a dotted quad and a positive limit:
if the limit passes the guard, then for every lease file the flag is set exactly by an
address of the range, if and only if there is such an address in a field of at most 19
bytes, or a misread line is taken for one of the range exactly when there is one in a longer
field; if the limit fails the guard, nothing is found in any file. -/
theorem lease_scan_exact_iff {cfg : Config} {a b c d : ℕ} (hstart : Quad cfg.startIpStr a b c d)
    (h0 : (a, b, c, d) ≠ (0, 0, 0, 0)) (hlimit : 1 ≤ cfg.limit.toInt) (now : ℤ) :
    (d + cfg.limit.toInt - 1 ≤ 255 → ∀ lines, LeaseFile lines →
      (((scanFile cfg now false (List.intercalate [newline] lines)).1 = true ↔
          SomeLeaseWithin (addressValue a b c d) cfg.limit.toInt lines) ↔
        (LeaseWithin Scannable (addressValue a b c d) cfg.limit.toInt lines ∨
          ((∃ l ∈ lines, Misread l ∧ TakenWithin (addressValue a b c d) cfg.limit.toInt l) ↔
            LeaseWithin (fun ip => ¬ Scannable ip) (addressValue a b c d) cfg.limit.toInt
              lines)))) ∧
    (255 < d + cfg.limit.toInt - 1 → ∀ file, (scanFile cfg now false file).1 = false) := by
  have hnum := addressValue_ne_zero h0
  constructor
  · intro hguard lines hfile
    -- the flag is set by a line that is taken for a lease of the range
    have hfound : (scanFile cfg now false (List.intercalate [newline] lines)).1 = true ↔
        ∃ l ∈ lines, TakenWithin (addressValue a b c d) cfg.limit.toInt l := by
      rw [scanFile_found cfg now fun l hl => ⟨(hfile l hl).1, (hfile l hl).2.1⟩]
      simp only [Hits, inRange_iff hstart h0 hlimit hguard, takenWithin_iff_value hnum]
    rw [hfound, exists_takenWithin_iff hnum _ hfile, someLeaseWithin_iff]
    by_cases hplain : LeaseWithin Scannable (addressValue a b c d) cfg.limit.toInt lines
    · exact iff_of_true (iff_of_true (.inl hplain) (.inl hplain)) (.inl hplain)
    · simp only [hplain, false_or]
  · intro hfail file
    refine scanFile_of_not_guard ?_ now file
    rw [guard_iff hstart hlimit]
    omega

/-- The addresses from `192.168.1.1` to `192.168.1.10`. -/
def sampleConfig : Config := ⟨str "192.168.1.1", 10, 3600⟩

theorem quad_private {t : CString} {v : ℕ} (h : Octet t v) :
    Quad (str "192.168.1." ++ t) 192 168 1 v := by
  have h192 : Octet (str "192") 192 := by decide
  have h168 : Octet (str "168") 168 := by decide
  have h1 : Octet (str "1") 1 := by decide
  exact ⟨_, _, _, _, h192, h168, h1, h, rfl⟩

theorem sampleConfig_start : Quad sampleConfig.startIpStr 192 168 1 1 :=
  quad_private (t := str "1") (by decide)

/-- A file of one lease in the range. -/
theorem lease_scan_exact_one :
    (scanFile sampleConfig 0 false (str "99 aa:bb 192.168.1.5 pc")).1 = true ↔
      SomeLeaseWithin (addressValue 192 168 1 1) 10 [str "99 aa:bb 192.168.1.5 pc"] := by
  have hip : Quad (str "192.168.1.5") 192 168 1 5 := quad_private (t := str "5") (by decide)
  have hline : LeaseLine (str "99 aa:bb 192.168.1.5 pc") (str "192.168.1.5") := by
    refine ⟨str "99", str " ", str "aa:bb", str " ", str " pc", by decide, by decide, by decide,
      by decide, ⟨by decide, .inl ⟨_, _, _, _, hip⟩⟩, ?_, by decide⟩
    rintro b ⟨⟩
    decide
  have hfile : LeaseFile [str "99 aa:bb 192.168.1.5 pc"] := by
    intro l hl
    rw [List.mem_singleton.mp hl]
    exact ⟨by decide, by decide, .inl ⟨_, hline⟩⟩
  have hsome : LeaseWithin Scannable (addressValue 192 168 1 1) 10
      [str "99 aa:bb 192.168.1.5 pc"] :=
    ⟨_, List.mem_singleton_self _, _, _, _, _, _, hline, by unfold Scannable; decide, hip,
      by unfold Within; decide⟩
  exact ((lease_scan_exact_iff sampleConfig_start (by decide) (by decide) 0).1 (by decide) _
    hfile).mpr (.inl hsome)

/-- A line of two fields whose first field `%ld` leaves halfway is taken for a lease. -/
theorem short_line_found :
    ¬ ((scanFile sampleConfig 0 false (str "5abc 192.168.1.5")).1 = true ↔
      SomeLeaseWithin (addressValue 192 168 1 1) 10 [str "5abc 192.168.1.5"]) ∧
    LeaseFile [str "5abc 192.168.1.5"] := by
  refine ⟨fun hiff => ?_, ?_⟩
  · have hfound : (scanFile sampleConfig 0 false (str "5abc 192.168.1.5")).1 = true := by decide +kernel
    obtain ⟨l, hl, ip, -, -, -, -, hline, -, -⟩ := hiff.mp hfound
    rw [List.mem_singleton.mp hl] at hline
    -- a lease line has white space after its first number
    obtain ⟨expiry, gap₁, mac, gap₂, rest, hdigits, ⟨hgap₁, hne⟩, -, -, -, -, heq⟩ := hline
    have hend := (Blank.endsBefore hgap₁ hne (mac ++ (gap₂ ++ (ip ++ rest)))).1
    have hdrop := (span_of_all hdigits.2 hend).2
    rw [← heq] at hdrop
    obtain ⟨g, gs, rfl⟩ := List.exists_cons_of_ne_nil hne
    have hg : some 97 = some g := congrArg List.head? hdrop
    have hspace : isspace g = true := hgap₁ g List.mem_cons_self
    rw [← Option.some.inj hg] at hspace
    exact absurd hspace (by decide)
  · intro l hl
    rw [List.mem_singleton.mp hl]
    exact ⟨by decide, by decide, .inr (by unfold Short; decide)⟩

end DhcpLeases
