/-
# Two readers of one format

The configuration program and the interface manager read the output of `ifconfig` with code of
their own: `check_lan_ip_config_validity` line by line, up to spaces and with `isdigit`, and
`parse_data_buffer` block by block, with `strtok`.  On what `ifconfig` shows of an interface they
agree (`lan_check_agrees_with_scan`): the check answers 0 exactly for the address and the
netmask that the parser reads.
-/
import RouterTools.IfaceRoundTrip
import RouterTools.LanCheck

namespace LanCheck

open CString
open Stdio (isDigit pieces cstr)
open IpAddress (dot)
open Iface (Word Inet Record Layout render shownLines subLines inetLine inetText bcastText indented)

/-! ## What the check reads on a line -/

/-- A text as in an IPv4 address, short enough for the buffers of the check. -/
def Dotted (w : Word 64) : Prop :=
  w.bytes.length < 40 ∧ ∀ b ∈ w.bytes, (isDigit b || b == dot) = true

/-- What `ifconfig` shows fits into the buffer of the check, there is no marker in the header
and among the flags, and addresses are written with digits and dots. -/
structure Readable (r : Record) (l : Layout) : Prop where
  fits : ∀ line ∈ shownLines (r, l), line.length < 255 ∧ 0 ∉ line
  header : ¬ inetAddr <:+: Iface.headerLine r l
  flags : Iface.FlagsUnmarked r l
  addr : ∀ i, r.inet = some i → Dotted i.addr
  mask : ∀ i, r.inet = some i → Dotted i.mask
  bcast : ∀ i, r.inet = some i → ∀ b, i.bcast = some b → Dotted b

/-- A line without the first marker gives nothing. -/
theorem usable_of_unmarked {line : CString} (h : ¬ inetAddr <:+: line) :
    usableAddress (line ++ [newline]) = none ∧ usableMask (line ++ [newline]) = none := by
  have hnone : strstr (line ++ [newline]) inetAddr = none := by
    rw [strstr, Scan.findSub_append_cons (by decide) (by decide) h]
    rfl
  have hmarkers : hasMarkers (line ++ [newline]) = false := by
    rw [hasMarkers, hnone]
    rfl
  constructor
  · rw [usableAddress, if_neg (by simp [hmarkers])]
  · rw [usableMask, if_neg (by simp [hmarkers])]

/-- A run that is not empty and fits is copied. -/
theorem copyRun_some {run : CString} (hne : run ≠ []) (hlen : run.length < 40) :
    copyRun (some run) = some run := by
  have hpos : run.length > 0 := List.length_pos_iff.mpr hne
  rw [copyRun, if_pos hpos, if_pos hlen]

/-- Digits and dots do not occur in the markers. -/
theorem Dotted.not_mem {w : Word 64} (h : Dotted w) {b : UInt8}
    (hb : (isDigit b || b == dot) = false) : b ∉ w.bytes := by
  intro hmem
  rw [h.2 b hmem] at hb
  cases hb

/-- What is in front of the second marker. -/
def beforeMask (l : Layout) (i : Inet) : CString :=
  spaces (l.indent + 1) ++ (inetAddr ++ (i.addr.bytes ++ (bcastText i.bcast ++ [space, space])))

theorem indented_inetLine (l : Layout) (i : Inet) :
    indented l (inetLine i) ++ [newline] =
      beforeMask l i ++ (maskMark ++ (i.mask.bytes ++ [newline])) := by
  rw [indented, inetLine, inetText, beforeMask, maskMark, inetAddr]
  simp only [List.append_assoc, List.cons_append, List.nil_append]

variable {l : Layout} {i : Inet}

/-- The first `"Mask:"` of the line is the marker. -/
theorem strstr_maskMark (haddr : Dotted i.addr) (hbcast : ∀ b, i.bcast = some b → Dotted b) :
    strstr (indented l (inetLine i) ++ [newline]) maskMark =
      some (maskMark ++ (i.mask.bytes ++ [newline])) := by
  have hnotin : (77 : UInt8) ∉ beforeMask l i := by
    have hspaces : (77 : UInt8) ∉ spaces (l.indent + 1) := fun h =>
      absurd (List.eq_of_mem_replicate h) (by decide)
    have htext : (77 : UInt8) ∉ bcastText i.bcast := by
      cases hb : i.bcast with
      | none => exact List.not_mem_nil
      | some b =>
          have hb' : (77 : UInt8) ∉ b.bytes := (hbcast b hb).not_mem (by decide)
          have hmark : (77 : UInt8) ∉ str "Bcast:" := by decide
          simp [bcastText, hb', hmark, space]
    have haddr' : (77 : UInt8) ∉ i.addr.bytes := haddr.not_mem (by decide)
    have hmark : (77 : UInt8) ∉ inetAddr := by decide
    simp [beforeMask, hspaces, htext, haddr', hmark, space]
  have hmark : maskMark = 77 :: str "ask:" := by decide
  rw [indented_inetLine, strstr]
  conv_lhs => rw [hmark]
  rw [Scan.findSub_append_of_not_mem hnotin, ← hmark]
  exact Scan.findSub_of_prefix (List.prefix_append _ _)

theorem strstr_inetAddr (l : Layout) (i : Inet) :
    strstr (indented l (inetLine i) ++ [newline]) inetAddr =
      some (inetAddr ++ (inetText i ++ [newline])) := by
  rw [indented, List.append_assoc, Iface.strstr_spaces (by decide)]
  have hline : inetLine i ++ [newline] = inetAddr ++ (inetText i ++ [newline]) :=
    List.append_assoc _ _ _
  rw [hline]
  exact Scan.findSub_of_prefix (List.prefix_append _ _)

/-- The address is followed by a space. -/
theorem inetText_eq (i : Inet) : ∃ rest, inetText i = i.addr.bytes ++ space :: rest := by
  rw [inetText]
  cases i.bcast with
  | none => exact ⟨_, rfl⟩
  | some b => exact ⟨_, rfl⟩

/-- **The check reads the group.** -/
theorem usable_inetLine (haddr : Dotted i.addr) (hmask : Dotted i.mask)
    (hbcast : ∀ b, i.bcast = some b → Dotted b) :
    usableAddress (indented l (inetLine i) ++ [newline]) = some i.addr.bytes ∧
      usableMask (indented l (inetLine i) ++ [newline]) = some i.mask.bytes := by
  have hmarkers : hasMarkers (indented l (inetLine i) ++ [newline]) = true := by
    rw [hasMarkers, strstr_inetAddr, strstr_maskMark haddr hbcast]
    rfl
  -- no word starts with a space
  have hskip : ∀ (w : Word 64) (s : CString),
      (w.bytes ++ s).dropWhile (fun b => b == space) = w.bytes ++ s := by
    intro w s
    obtain ⟨c, bytes, hbytes⟩ := List.exists_cons_of_ne_nil w.nonempty
    have hc : c ≠ space := by
      rintro rfl
      exact absurd (w.clean space (by rw [hbytes]; exact List.mem_cons_self)) (by decide)
    rw [hbytes, List.cons_append, List.dropWhile_cons_of_neg (by simpa using hc)]
  constructor
  · obtain ⟨rest, hrest⟩ := inetText_eq i
    have hrun : addressRun (indented l (inetLine i) ++ [newline]) = some i.addr.bytes := by
      have hnotspace : ∀ b ∈ i.addr.bytes, (b != space) = true := by
        intro b hb
        rw [bne_iff_ne]
        rintro rfl
        exact absurd (i.addr.clean space hb) (by decide)
      rw [addressRun, valueStart, strstr_inetAddr, Option.map_some, Option.map_some,
        List.drop_left, hrest, List.append_assoc, hskip, List.takeWhile_append_of_pos hnotspace,
        List.cons_append, List.takeWhile_cons_of_neg (by simp), List.append_nil]
    rw [usableAddress, if_pos hmarkers, hrun, copyRun_some i.addr.nonempty haddr.1]
  · have hrun : maskRun (indented l (inetLine i) ++ [newline]) = some i.mask.bytes := by
      rw [maskRun, valueStart, strstr_maskMark haddr hbcast, Option.map_some, Option.map_some,
        List.drop_left, hskip, List.takeWhile_append_of_pos hmask.2,
        List.takeWhile_cons_of_neg (by decide), List.append_nil]
    rw [usableMask, if_pos hmarkers, hrun, copyRun_some i.mask.nonempty hmask.1]

/-! ## What the check reads of an interface -/

variable {r : Record}

/-- The lines of an interface, the one with the IPv4 group aside. -/
theorem shownLines_eq (hflags : Iface.FlagsUnmarked r l) : ∃ rest,
    shownLines (r, l) =
      Iface.headerLine r l :: ((r.inet.map fun i => indented l (inetLine i)).toList ++ rest) ∧
      ∀ line ∈ rest, ¬ inetAddr <:+: line := by
  refine ⟨(r.inet6.map fun v6 => indented l (Iface.inet6Line l v6)).toList ++
    ((some (indented l (Iface.flagsLine r l))).toList ++
      ((l.counters.map fun c => indented l c.bytes) ++ [[]])), ?_, ?_⟩
  · rw [shownLines, Iface.subLines_eq]
    simp only [List.append_assoc, List.cons_append]
  · intro line hline
    rcases List.mem_append.mp hline with h | h
    · exact (Iface.inet6_kinds h).1
    rcases List.mem_append.mp h with h | h
    · exact (Iface.flags_kinds hflags h).1
    rcases List.mem_append.mp h with h | h
    · exact (Iface.counter_kinds h).1
    · rw [List.mem_singleton.mp h]
      decide

/-- What a line gives. -/
theorem Readable.lines (h : Readable r l) {usable : CString → Option CString}
    {value : Inet → CString}
    (hinet : ∀ i, r.inet = some i →
      usable (indented l (inetLine i) ++ [newline]) = some (value i))
    (hother : ∀ {line}, ¬ inetAddr <:+: line → usable (line ++ [newline]) = none) :
    ((shownLines (r, l)).map fun line => line ++ [newline]).findSome? usable =
      r.inet.map value := by
  obtain ⟨rest, hlines, hrest⟩ := shownLines_eq h.flags
  have hnone : (rest.map fun line => line ++ [newline]).findSome? usable = none := by
    rw [List.findSome?_eq_none_iff]
    intro line hline
    obtain ⟨line', hline', rfl⟩ := List.mem_map.mp hline
    exact hother (hrest line' hline')
  rw [hlines, List.map_cons, List.findSome?_cons, hother h.header, List.map_append,
    List.findSome?_append, hnone]
  cases hr : r.inet with
  | none => rfl
  | some i => simp [hinet i hr]

/-- The lines are read one by one. -/
theorem Readable.paired (h : Readable r l) : PairedLines (shownLines (r, l)) := by
  intro line hline
  refine ⟨Iface.newline_not_mem_shownLines (r, l) line hline, (h.fits line hline).2,
    (h.fits line hline).1, ?_⟩
  obtain ⟨rest, hlines, hrest⟩ := shownLines_eq h.flags
  have hunmarked : ∀ {line}, ¬ inetAddr <:+: line →
      ((usableAddress (line ++ [newline])).isSome ↔ (usableMask (line ++ [newline])).isSome) := by
    intro line hline
    rw [(usable_of_unmarked hline).1, (usable_of_unmarked hline).2]
  rw [hlines] at hline
  rcases List.mem_cons.mp hline with rfl | hline
  · exact hunmarked h.header
  rcases List.mem_append.mp hline with hline | hline
  · obtain ⟨i, hi, rfl⟩ := Option.map_eq_some_iff.mp (Option.mem_toList.mp hline)
    have husable := usable_inetLine (l := l) (h.addr i hi) (h.mask i hi) (h.bcast i hi)
    rw [husable.1, husable.2]
    exact Iff.rfl
  · exact hunmarked (hrest line hline)

/-- **The check answers 0** exactly for the address and the netmask that are shown. -/
theorem Readable.check_eq_zero_iff (h : Readable r l) (a m : CString) :
    checkLanIpConfigValidity (some a) (some m) (some (render [(r, l)])) = 0 ↔
      ∃ i, r.inet = some i ∧ i.addr.bytes = a ∧ i.mask.bytes = m := by
  have hrender : render [(r, l)] = (shownLines (r, l)).flatMap fun line => line ++ [newline] := by
    rw [render, List.flatMap_cons, List.flatMap_nil, List.append_nil]
  have husable : ∀ i, r.inet = some i → _ := fun i hi =>
    usable_inetLine (l := l) (h.addr i hi) (h.mask i hi) (h.bcast i hi)
  rw [LanCheck.check_eq_zero_iff, hrender, map_cstr_pieces_pairedLines h.paired,
    h.lines (fun i hi => (husable i hi).1) fun hline => (usable_of_unmarked hline).1,
    h.lines (fun i hi => (husable i hi).2) fun hline => (usable_of_unmarked hline).2]
  cases r.inet with
  | none => simp
  | some i => simp

/-! ## The two readers -/

/-- **The two readers agree.**  On what `ifconfig` shows of an interface, the check of the
configuration program answers 0 for an address and a netmask exactly when they are what the
interface manager reads. -/
theorem lan_check_agrees_with_scan (r : Record) (l : Layout) (h : Readable r l)
    {heap : Iface.Alloc} (hheap : Iface.AllocationsSucceed heap) (a m : CString) (ha : a ≠ []) :
    checkLanIpConfigValidity (some a) (some m) (some (render [(r, l)])) = 0 ↔
      ∃ node ∈ (Iface.parseDataBuffer [] (some (render [(r, l)])) heap).1,
        node.ipv4 = a ∧ node.mask = m := by
  have hgroup : Iface.seenIpv4 r l = ⟨r.node.ipv4, r.node.bcast, r.node.mask⟩ :=
    if_neg h.flags.1
  rw [h.check_eq_zero_iff, Iface.parseDataBuffer_render [(r, l)] (List.nodup_singleton _) hheap]
  simp only [List.map_cons, List.map_nil, List.mem_singleton, exists_eq_left]
  rw [Iface.seenNode, hgroup, Record.node]
  cases r.inet with
  | none =>
      constructor
      · rintro ⟨i, hi, -⟩
        cases hi
      · rintro ⟨rfl, -⟩
        exact absurd rfl ha
  | some i =>
      constructor
      · rintro ⟨_, ⟨⟩, haddr, hmask⟩
        exact ⟨haddr, hmask⟩
      · rintro ⟨haddr, hmask⟩
        exact ⟨i, rfl, haddr, hmask⟩

/-- The bridge with the address of the sample. -/
def bridge : Record :=
  Iface.sampleRecord (Iface.literal "br-lan" (by decide) (by decide) (by decide)) none

theorem bridge_readable : Readable bridge Iface.sampleLayout where
  fits := by decide +kernel
  header := by decide +kernel
  flags := by decide +kernel
  addr := by
    rintro i ⟨⟩
    exact ⟨by decide +kernel, by decide +kernel⟩
  mask := by
    rintro i ⟨⟩
    exact ⟨by decide +kernel, by decide +kernel⟩
  bcast := by
    rintro i ⟨⟩ b hb
    cases hb

theorem lan_check_agrees_with_scan_sample :
    checkLanIpConfigValidity (some (str "192.168.94.42")) (some (str "255.255.255.0"))
        (some (render [(bridge, Iface.sampleLayout)])) = 0 ↔
      ∃ node ∈ (Iface.parseDataBuffer [] (some (render [(bridge, Iface.sampleLayout)])) []).1,
        node.ipv4 = str "192.168.94.42" ∧ node.mask = str "255.255.255.0" :=
  lan_check_agrees_with_scan bridge Iface.sampleLayout bridge_readable
    (by intro ok hok; cases hok) _ _ (by decide)

end LanCheck
