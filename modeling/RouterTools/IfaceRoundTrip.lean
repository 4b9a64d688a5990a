/-
# Parsing what `ifconfig -a` shows

`parse_data_buffer` on the text of a list of interfaces with distinct names gives back what
is seen of each of them (`seenNode`, `parseDataBuffer_render`): the record, with the MAC that
`parser_mac` reads on the header and, where flag words make an address line of the flags
line, the addresses that stand there.  `parse_render_iff` is the round-trip law with its
exact condition.
-/
import Mathlib.Data.List.Nodup
import RouterTools.IfaceRender

namespace Iface

open CString IfaceParser

/-! ## The lines of the text -/

theorem newline_not_mem_headerLine (r : Record) (l : Layout) : newline ∉ headerLine r l := by
  have hname := newline_not_mem_of_clean r.name.clean
  have hmac : newline ∉ macText r.mac := by
    cases r.mac with
    | none => exact List.not_mem_nil
    | some mac =>
        rw [macText, List.mem_append, List.mem_cons, not_or, not_or]
        exact ⟨by decide, by decide, newline_not_mem_of_clean mac.clean⟩
  have h1 : newline ∉ str "Link" := by decide
  have h2 : newline ∉ str "encap" := by decide
  simp only [headerLine, List.mem_append, List.mem_cons, not_or]
  exact ⟨hname, by decide, newline_not_mem_spaces _, h1, by decide, h2, by decide,
    l.encap.oneLine, by decide, by decide, hmac, newline_not_mem_spaces _⟩

theorem newline_not_mem_inetLine (i : Inet) : newline ∉ inetLine i := by
  have haddr := newline_not_mem_of_clean i.addr.clean
  have hmask := newline_not_mem_of_clean i.mask.clean
  have hbcast : newline ∉ bcastText i.bcast := by
    cases i.bcast with
    | none => exact List.not_mem_nil
    | some b =>
        have h := newline_not_mem_of_clean b.clean
        have h1 : newline ∉ str "Bcast:" := by decide
        simp only [bcastText, List.mem_cons, List.mem_append, not_or]
        exact ⟨by decide, by decide, h1, h⟩
  have h1 : newline ∉ str "inet addr:" := by decide
  have h2 : newline ∉ str "Mask:" := by decide
  simp only [inetLine, inetText, List.mem_append, List.mem_cons, not_or]
  exact ⟨h1, haddr, hbcast, by decide, by decide, h2, hmask⟩

theorem newline_not_mem_inet6Line (l : Layout) (v6 : Word 64) : newline ∉ inet6Line l v6 := by
  have haddr := newline_not_mem_of_clean v6.clean
  have hscope := newline_not_mem_of_clean l.scopeClean
  have h1 : newline ∉ str "inet6 addr:" := by decide
  have h2 : newline ∉ str "Scope:" := by decide
  simp only [inet6Line, List.mem_append, List.mem_cons, not_or]
  exact ⟨h1, by decide, haddr, by decide, h2, hscope⟩

theorem newline_not_mem_flagsLine (r : Record) (l : Layout) : newline ∉ flagsLine r l := by
  have hwords : newline ∉ (flagWords r l).flatMap fun w => w ++ [space] :=
    not_mem_flagWords r l (fun f => newline_not_mem_of_clean f.clean) (by decide) (by decide)
  have hmtu : newline ∉ decimal l.mtu := not_mem_decimal (by decide)
  have hmetric : newline ∉ decimal l.metric := not_mem_decimal (by decide)
  have h1 : newline ∉ str "MTU" := by decide
  have h2 : newline ∉ str "  Metric" := by decide
  simp only [flagsLine, mtuText, List.mem_append, List.mem_cons, not_or]
  exact ⟨hwords, by decide, h1, by decide, hmtu, h2, by decide, hmetric⟩

/-- No shown line has a newline in it. -/
theorem newline_not_mem_shownLines (p : Record × Layout) : ∀ line ∈ shownLines p, newline ∉ line := by
  intro line hline
  rw [shownLines, List.mem_append, List.mem_cons, List.mem_singleton] at hline
  rcases hline with (rfl | hsub) | rfl
  · exact newline_not_mem_headerLine p.1 p.2
  · obtain ⟨text, htext, rfl⟩ := List.mem_map.mp hsub
    rw [indented, List.mem_append, not_or]
    refine ⟨newline_not_mem_spaces _, ?_⟩
    simp only [List.mem_append, List.mem_map, List.mem_singleton] at htext
    rcases htext with ((⟨i, -, rfl⟩ | ⟨v6, -, rfl⟩) | rfl) | ⟨c, -, rfl⟩
    · exact newline_not_mem_inetLine i
    · exact newline_not_mem_inet6Line p.2 v6
    · exact newline_not_mem_flagsLine p.1 p.2
    · exact c.oneLine
  · exact List.not_mem_nil

/-- The lines the parser gets are the shown ones without the blank ones. -/
theorem strtok_render (ps : List (Record × Layout)) :
    strtok (render ps) (str "\n") =
      ps.flatMap fun p => headerLine p.1 p.2 :: subLines p.1 p.2 := by
  have hclean : ∀ line ∈ ps.flatMap shownLines, ∀ b ∈ line, (str "\n").contains b = false := by
    intro line hline b hb
    obtain ⟨p, -, hp⟩ := List.mem_flatMap.mp hline
    by_contra hmem
    rw [Bool.not_eq_false] at hmem
    have heq : b = newline := by simpa [str, newline] using hmem
    exact newline_not_mem_shownLines p line hp (heq ▸ hb)
  rw [strtok, render, Scan.tokens_flatMap (by decide) _ hclean, List.filter_flatMap]
  congr 1
  funext p
  rw [shownLines, List.filter_append]
  have hfull : ∀ line ∈ headerLine p.1 p.2 :: subLines p.1 p.2, decide (line ≠ []) = true := by
    intro line hline
    rw [decide_eq_true_eq]
    rcases List.mem_cons.mp hline with rfl | hsub
    · exact List.append_ne_nil_of_left_ne_nil p.1.name.nonempty _
    · obtain ⟨text, -, rfl⟩ := List.mem_map.mp hsub
      exact List.cons_ne_nil _ _
  rw [List.filter_eq_self.mpr hfull]
  exact List.append_nil _

/-! ## The blocks of the text -/

theorem not_isHeader_subLines (r : Record) (l : Layout) :
    ∀ line ∈ subLines r l, isHeader line = false := by
  intro line hline
  obtain ⟨text, -, rfl⟩ := List.mem_map.mp hline
  exact not_isHeader_indented l text

/-- Lines that are not headers are not seen by `blocks`. -/
theorem blocks_append {body : List CString} (hbody : ∀ line ∈ body, isHeader line = false)
    (lines : List CString) : blocks (body ++ lines) = blocks lines := by
  induction body with
  | nil => rfl
  | cons line body ih =>
      rw [List.cons_append, blocks, if_neg (by simp [hbody line List.mem_cons_self])]
      exact ih fun l hl => hbody l (List.mem_cons_of_mem line hl)

/-- Each interface is a block. -/
theorem blocks_render (ps : List (Record × Layout)) :
    blocks (ps.flatMap fun p => headerLine p.1 p.2 :: subLines p.1 p.2) =
      ps.map fun p => ⟨headerLine p.1 p.2, subLines p.1 p.2⟩ := by
  induction ps with
  | nil => rfl
  | cons p ps ih =>
      have hbody := not_isHeader_subLines p.1 p.2
      rw [List.flatMap_cons, List.cons_append, blocks, if_pos (isHeader_headerLine p.1 p.2),
        blocks_append hbody, ih, List.map_cons]
      congr 2
      rw [List.takeWhile_append_of_pos (fun line hline => by simp [hbody line hline])]
      -- the next line, if any, is a header
      cases ps with
      | nil => exact List.append_nil _
      | cons q ps =>
          rw [List.flatMap_cons, List.cons_append,
            List.takeWhile_cons_of_neg (by simp [isHeader_headerLine]), List.append_nil]

/-! ## The record of a block -/

theorem getLast?_toList {α : Type*} (x : Option α) : x.toList.getLast? = x := by
  cases x <;> rfl

/-- The last line of a kind, when the lines of that kind are those of one optional field. -/
theorem lastLine_split {P : CString → Prop} [DecidablePred P] {before after : List CString}
    {x : Option CString} (hbefore : ∀ line ∈ before, ¬ P line) (hx : ∀ line ∈ x, P line)
    (hafter : ∀ line ∈ after, ¬ P line) : lastLine P (before ++ x.toList ++ after) = x := by
  have h1 : before.filter P = [] := List.filter_eq_nil_iff.mpr (by simpa using hbefore)
  have h2 : after.filter P = [] := List.filter_eq_nil_iff.mpr (by simpa using hafter)
  have h3 : x.toList.filter P = x.toList := List.filter_eq_self.mpr (by simpa using hx)
  rw [lastLine, List.filter_append, List.filter_append, h1, h2, h3, List.nil_append,
    List.append_nil, getLast?_toList]

/-- The lines after the header, by what they hold. -/
theorem subLines_eq (r : Record) (l : Layout) :
    subLines r l = (r.inet.map fun i => indented l (inetLine i)).toList ++
      (r.inet6.map fun v6 => indented l (inet6Line l v6)).toList ++
      (some (indented l (flagsLine r l))).toList ++
      l.counters.map fun c => indented l c.bytes := by
  simp only [subLines, List.map_append, List.map_map]
  cases r.inet <;> cases r.inet6 <;> rfl

section Kinds

variable {l : Layout} {line : CString}

theorem counter_kinds (h : line ∈ l.counters.map fun c => indented l c.bytes) :
    ¬ IsInetLine line ∧ ¬ IsInet6Line line ∧ ¬ IsStatusLine line := by
  obtain ⟨c, -, rfl⟩ := List.mem_map.mp h
  have h1 : ¬ str "inet addr:" <:+: indented l c.bytes := by
    rw [infix_indented (by decide)]
    exact c.notInet
  have h2 : ¬ str "inet6 addr:" <:+: indented l c.bytes := by
    rw [infix_indented (by decide)]
    exact c.notInet6
  have h3 : ¬ str "MTU:" <:+: indented l c.bytes := by
    rw [infix_indented (by decide)]
    exact c.notStatus
  exact ⟨h1, fun h => h2 h.2, fun h => h3 h.2.2⟩

theorem inet_kinds {i : Option Inet} (h : line ∈ (i.map fun i => indented l (inetLine i)).toList) :
    IsInetLine line ∧ ¬ IsInet6Line line ∧ ¬ IsStatusLine line := by
  obtain ⟨i, -, rfl⟩ := Option.map_eq_some_iff.mp (Option.mem_toList.mp h)
  have h1 := isInetLine_inetLine l i
  exact ⟨h1, fun h => h.1 h1, fun h => h.1 h1⟩

theorem inet6_kinds {v6 : Option (Word 64)}
    (h : line ∈ (v6.map fun v6 => indented l (inet6Line l v6)).toList) :
    ¬ IsInetLine line ∧ IsInet6Line line ∧ ¬ IsStatusLine line := by
  obtain ⟨v6, -, rfl⟩ := Option.map_eq_some_iff.mp (Option.mem_toList.mp h)
  have h1 := not_isInetLine_inet6Line l v6
  have h2 := infix_inet6Line l v6
  exact ⟨h1, ⟨h1, h2⟩, fun h => h.2.1 h2⟩

theorem flags_kinds {r : Record} (hflags : FlagsUnmarked r l)
    (h : line ∈ (some (indented l (flagsLine r l))).toList) :
    ¬ IsInetLine line ∧ ¬ IsInet6Line line ∧ IsStatusLine line := by
  obtain rfl := Option.some.inj (Option.mem_toList.mp h)
  have h1 : ¬ IsInetLine (indented l (flagsLine r l)) := by
    rw [IsInetLine, infix_indented (by decide)]
    exact hflags.1
  have h2 : ¬ str "inet6 addr:" <:+: indented l (flagsLine r l) := by
    rw [infix_indented (by decide)]
    exact hflags.2
  exact ⟨h1, fun h => h2 h.2, ⟨h1, h2, mtu_infix_flagsLine r l⟩⟩

end Kinds

/-- The last line of a kind of an interface. -/
theorem lastLine_subLines {P : CString → Prop} [DecidablePred P] (r : Record) (l : Layout)
    (hcounter : ∀ line ∈ l.counters.map fun c => indented l c.bytes, ¬ P line) :
    lastLine P (subLines r l) =
      if P (indented l (flagsLine r l)) then some (indented l (flagsLine r l))
      else lastLine P ((r.inet.map fun i => indented l (inetLine i)).toList ++
        (r.inet6.map fun v6 => indented l (inet6Line l v6)).toList) := by
  have hafter : (l.counters.map fun c => indented l c.bytes).filter P = [] :=
    List.filter_eq_nil_iff.mpr (by simpa using hcounter)
  rw [← lastLine_concat, subLines_eq, Option.toList_some, lastLine, List.filter_append, hafter,
    List.append_nil]
  rfl

/-- The line of the IPv4 group. -/
theorem lastLine_inet (r : Record) (l : Layout) :
    lastLine IsInetLine ((r.inet.map fun i => indented l (inetLine i)).toList ++
        (r.inet6.map fun v6 => indented l (inet6Line l v6)).toList) =
      r.inet.map fun i => indented l (inetLine i) := by
  rw [← List.nil_append (Option.toList (r.inet.map _))]
  apply lastLine_split
  · exact fun line h => absurd h List.not_mem_nil
  · exact fun line h => (inet_kinds (Option.mem_toList.mpr h)).1
  · exact fun line h => (inet6_kinds h).1

/-- The line of the IPv6 address. -/
theorem lastLine_inet6 (r : Record) (l : Layout) :
    lastLine IsInet6Line ((r.inet.map fun i => indented l (inetLine i)).toList ++
        (r.inet6.map fun v6 => indented l (inet6Line l v6)).toList) =
      r.inet6.map fun v6 => indented l (inet6Line l v6) := by
  rw [← List.append_nil (_ ++ Option.toList (r.inet6.map _))]
  apply lastLine_split
  · exact fun line h => (inet_kinds h).2.1
  · exact fun line h => (inet6_kinds (Option.mem_toList.mpr h)).2.1
  · exact fun line h => absurd h List.not_mem_nil

theorem isInetLine_indented {l : Layout} {line : CString} :
    IsInetLine (indented l line) ↔ IsInetLine line :=
  infix_indented (by decide) l line

theorem isInet6Line_indented {l : Layout} {line : CString} :
    IsInet6Line (indented l line) ↔ IsInet6Line line := by
  rw [IsInet6Line, IsInet6Line, isInetLine_indented, infix_indented (by decide)]

theorem parserIpv4_indented (l : Layout) (line : CString) (sizes : Ipv4Sizes) (old : Ipv4) :
    parserIpv4 (indented l line) sizes old = parserIpv4 line sizes old := by
  rw [parserIpv4, parserIpv4, indented, strstr_spaces (by decide)]

theorem parserIpv6_indented (l : Layout) (line : CString) (size : ℕ) (old : CString) :
    parserIpv6 (indented l line) size old = parserIpv6 line size old := by
  rw [parserIpv6, parserIpv6, wordAfter, wordAfter, indented, strstr_spaces (by decide)]

/-- The IPv4 fields that are seen: those on the flags line if it is an `inet addr:` line. -/
def seenIpv4 (r : Record) (l : Layout) : Ipv4 :=
  if IsInetLine (flagsLine r l) then parserIpv4 (flagsLine r l) ⟨256, 256, 256⟩ ⟨[], [], []⟩
  else ⟨r.node.ipv4, r.node.bcast, r.node.mask⟩

/-- The IPv6 address that is seen: the one on the flags line if it is an `inet6 addr:` line. -/
def seenIpv6 (r : Record) (l : Layout) : CString :=
  if IsInet6Line (flagsLine r l) then parserIpv6 (flagsLine r l) 256 [] else r.node.ipv6

/-- The status that is seen: none, which reads as down, if the flags line is an address line. -/
def seenStatus (r : Record) (l : Layout) : CString :=
  if FlagsUnmarked r l then r.node.status else str "DOWN"

/-- What the parser sees of an interface. -/
def seenNode (r : Record) (l : Layout) : Node where
  name := r.name.bytes
  mac := macRead r l
  ipv4 := (seenIpv4 r l).ipv4
  bcast := (seenIpv4 r l).bcast
  mask := (seenIpv4 r l).mask
  ipv6 := seenIpv6 r l
  status := seenStatus r l

/-- The IPv4 fields of the block. -/
theorem blockIpv4_subLines (r : Record) (l : Layout) :
    blockIpv4 (subLines r l) = seenIpv4 r l := by
  rw [blockIpv4, lastLine_subLines r l fun line h => (counter_kinds h).1, seenIpv4]
  simp only [isInetLine_indented]
  split_ifs with hflags
  · exact parserIpv4_indented l _ _ _
  · rw [lastLine_inet, Record.node]
    cases r.inet with
    | none => rfl
    | some i => exact parserIpv4_inetLine l i

/-- The IPv6 address of the block. -/
theorem blockIpv6_subLines (r : Record) (l : Layout) :
    blockIpv6 (subLines r l) = seenIpv6 r l := by
  rw [blockIpv6, lastLine_subLines r l fun line h => (counter_kinds h).2.1, seenIpv6]
  simp only [isInet6Line_indented]
  split_ifs with hflags
  · exact parserIpv6_indented l _ _ _
  · rw [lastLine_inet6, Record.node]
    cases r.inet6 with
    | none => rfl
    | some v6 => exact parserIpv6_inet6Line l v6

/-- The flags line is a status line unless it is an address line. -/
theorem isStatusLine_flagsLine (r : Record) (l : Layout) :
    IsStatusLine (indented l (flagsLine r l)) ↔ FlagsUnmarked r l := by
  rw [IsStatusLine, isInetLine_indented, infix_indented (by decide), FlagsUnmarked, IsInetLine]
  constructor
  · exact fun h => ⟨h.1, h.2.1⟩
  · exact fun h => ⟨h.1, h.2, mtu_infix_flagsLine r l⟩

/-- The status of the block. -/
theorem blockStatus_subLines (r : Record) (l : Layout) :
    blockStatus (subLines r l) = seenStatus r l := by
  have hbefore : lastLine IsStatusLine ((r.inet.map fun i => indented l (inetLine i)).toList ++
      (r.inet6.map fun v6 => indented l (inet6Line l v6)).toList) = none := by
    rw [lastLine, List.getLast?_eq_none_iff, List.filter_eq_nil_iff]
    intro line h
    rw [decide_eq_true_eq]
    rcases List.mem_append.mp h with h | h
    · exact (inet_kinds h).2.2
    · exact (inet6_kinds h).2.2
  rw [blockStatus, lastLine_subLines r l fun line h => (counter_kinds h).2.2, hbefore, seenStatus]
  simp only [isStatusLine_flagsLine]
  split_ifs with hflags
  · exact parserStatus_flagsLine r l
  · rfl

theorem flagsUnmarked_iff (r : Record) (l : Layout) :
    FlagsUnmarked r l ↔ ¬ IsInetLine (flagsLine r l) ∧ ¬ IsInet6Line (flagsLine r l) := by
  rw [FlagsUnmarked, IsInet6Line, IsInetLine]
  tauto

/-- **The record of a shown interface** is what is seen of it. -/
theorem record_shown (r : Record) (l : Layout) :
    record ⟨headerLine r l, subLines r l⟩ = seenNode r l := by
  rw [record, seenNode]
  dsimp only
  rw [parserName_headerLine, parserMac_headerLine, blockIpv4_subLines, blockIpv6_subLines,
    blockStatus_subLines]

/-! ## The round trip -/

/-- Records with pairwise distinct new names are all kept. -/
theorem keepNew_of_nodup (rs : List Node) :
    ∀ seen : List CString, (seen ++ names rs).Nodup → keepNew seen rs = rs := by
  induction rs with
  | nil => exact fun _ _ => rfl
  | cons r rs ih =>
      intro seen hnodup
      rw [names, List.map_cons] at hnodup
      have hnew : r.name ∉ seen := by
        intro hmem
        exact (List.nodup_append.mp hnodup).2.2 r.name hmem r.name List.mem_cons_self rfl
      rw [keepNew, if_neg hnew, ih]
      rw [List.append_assoc]
      exact hnodup

/-- **Parsing the text** gives what is seen of the interfaces, in order. -/
theorem parseDataBuffer_render (ps : List (Record × Layout)) {heap : Alloc}
    (hdistinct : (ps.map fun p => p.1.name.bytes).Nodup) (hheap : AllocationsSucceed heap) :
    (parseDataBuffer [] (some (render ps)) heap).1 = ps.map fun p => seenNode p.1 p.2 := by
  have hrecords : (blocks (strtok (render ps) (str "\n"))).map record =
      ps.map fun p => seenNode p.1 p.2 := by
    rw [strtok_render, blocks_render, List.map_map]
    apply List.map_congr_left
    intro p _
    exact record_shown p.1 p.2
  rw [parseDataBuffer_eq_keepNew [] (render ps) hheap, hrecords, List.nil_append]
  apply keepNew_of_nodup
  show (([] : List CString) ++ names _).Nodup
  rw [List.nil_append, names, List.map_map]
  exact hdistinct

/-- The marker `HWaddr` stands neither in the name nor in the word after `encap:`; or the MAC
is what follows the first such marker. -/
def MacUnshadowed (r : Record) (l : Layout) : Prop := ∀ w ∈ macShadow r l, optText r.mac = w

theorem macRead_eq_iff (r : Record) (l : Layout) :
    macRead r l = optText r.mac ↔ MacUnshadowed r l := by
  have hlen : (optText r.mac).length ≤ 64 := by
    cases r.mac with
    | none => exact Nat.zero_le _
    | some mac => exact mac.length_le
  rw [macRead, MacUnshadowed]
  cases macShadow r l with
  | none =>
      rw [Option.getD_none, copyTo_of_le (by omega)]
      simp
  | some w =>
      have hcopy : copyTo 256 w = optText r.mac ↔ optText r.mac = w := by
        constructor
        · intro h
          -- a text that was cut would be longer than a MAC
          have hw : w.length ≤ 255 := by
            by_contra hlong
            have hcut : (copyTo 256 w).length = 255 := List.length_take_of_le (by omega)
            rw [h] at hcut
            omega
          rw [← h, copyTo_of_le hw]
        · rintro h
          rw [← h, copyTo_of_le (by omega)]
      simp [hcopy]

/-- What the tokens behind an `inet addr:` of the flags line give, as far as a copy of 255
bytes goes, is the record's own IPv4 group. -/
def RepeatsInet (r : Record) (l : Layout) : Prop :=
  ∀ text ∈ ipv4Text (flagsLine r l), ipv4Fields ⟨256, 256, 256⟩ (strtok (lineCopy text) ipv4Delims) =
    ⟨optText (r.inet.map Inet.addr), optText (r.inet.bind Inet.bcast), optText (r.inet.map Inet.mask)⟩

/-- The word behind an `inet6 addr:` of the flags line is the record's own IPv6 address. -/
def RepeatsInet6 (r : Record) (l : Layout) : Prop :=
  ∀ ptr, strstr (flagsLine r l) (str "inet6 addr:") = some ptr →
    copyTo 256 (word (skipSpaces (ptr.drop (str "inet6 addr:").length))) = optText r.inet6

/-- The flags line does no harm: it holds no address marker; or the interface is down and the
flags repeat the very address that the marker announces. -/
def FlagsHarmless (r : Record) (l : Layout) : Prop :=
  FlagsUnmarked r l ∨
    r.up = false ∧
      if IsInetLine (flagsLine r l) then RepeatsInet r l else RepeatsInet6 r l

theorem status_eq_down_iff (r : Record) : str "DOWN" = r.node.status ↔ r.up = false := by
  show str "DOWN" = (if r.up then str "UP" else str "DOWN") ↔ _
  cases r.up with
  | false => exact iff_of_true rfl rfl
  | true => exact iff_of_false (by decide) (by decide)

/-- An `inet addr:` among the flags. -/
theorem repeatsInet_iff (r : Record) (l : Layout) (h : IsInetLine (flagsLine r l)) :
    parserIpv4 (flagsLine r l) ⟨256, 256, 256⟩ ⟨[], [], []⟩ =
      ⟨r.node.ipv4, r.node.bcast, r.node.mask⟩ ↔ RepeatsInet r l := by
  obtain ⟨ptr, hptr⟩ := Option.isSome_iff_exists.mp (strstr_isSome_iff.mpr h)
  have htext : ipv4Text (flagsLine r l) = some (ptr.drop (str "inet addr:").length) := by
    rw [ipv4Text, hptr, Option.map_some]
  rw [parserIpv4_eq (by decide) (by decide) (by decide), RepeatsInet, htext]
  simp only [Option.mem_some_iff, forall_eq']
  rfl

/-- An `inet6 addr:` among the flags. -/
theorem repeatsInet6_iff (r : Record) (l : Layout) (h : IsInet6Line (flagsLine r l)) :
    parserIpv6 (flagsLine r l) 256 [] = r.node.ipv6 ↔ RepeatsInet6 r l := by
  obtain ⟨ptr, hptr⟩ := Option.isSome_iff_exists.mp (strstr_isSome_iff.mpr h.2)
  rw [parserIpv6, wordAfter, if_neg (by decide), RepeatsInet6, hptr]
  simp only [Option.some.injEq, forall_eq']
  rfl

/-- **What is seen is what was shown** exactly when nothing shadows the MAC and the flags do no
harm. -/
theorem seenNode_eq_iff (r : Record) (l : Layout) :
    seenNode r l = r.node ↔ MacUnshadowed r l ∧ FlagsHarmless r l := by
  have hfields : seenNode r l = r.node ↔ macRead r l = optText r.mac ∧
      seenIpv4 r l = ⟨r.node.ipv4, r.node.bcast, r.node.mask⟩ ∧ seenIpv6 r l = r.node.ipv6 ∧
        seenStatus r l = r.node.status := by
    rw [seenNode, Fields.mk.injEq, Ipv4.mk.injEq]
    exact ⟨fun h => ⟨h.2.1, ⟨h.2.2.1, h.2.2.2.1, h.2.2.2.2.1⟩, h.2.2.2.2.2⟩,
      fun h => ⟨rfl, h.1, h.2.1.1, h.2.1.2.1, h.2.1.2.2, h.2.2⟩⟩
  rw [hfields, macRead_eq_iff, FlagsHarmless, seenIpv4, seenIpv6, seenStatus,
    ← status_eq_down_iff]
  apply and_congr_right'
  by_cases h4 : IsInetLine (flagsLine r l)
  · have h6 : ¬ IsInet6Line (flagsLine r l) := fun h => h.1 h4
    have hmarked : ¬ FlagsUnmarked r l := fun h => h.1 h4
    rw [if_pos h4, if_neg h6, if_neg hmarked, if_pos h4, repeatsInet_iff r l h4]
    tauto
  · by_cases h6 : IsInet6Line (flagsLine r l)
    · have hmarked : ¬ FlagsUnmarked r l := fun h => h.2 h6.2
      rw [if_neg h4, if_pos h6, if_neg hmarked, if_neg h4, repeatsInet6_iff r l h6]
      tauto
    · have hunmarked : FlagsUnmarked r l := (flagsUnmarked_iff r l).mpr ⟨h4, h6⟩
      rw [if_neg h4, if_neg h6, if_pos hunmarked]
      tauto

/-- **Parsing undoes rendering, exactly when nothing is taken for a marker.**  For every list of
interfaces with distinct names, each in any layout: the parser gives back the records in
order if and only if in each of them no `HWaddr` in the name or the word after `encap:`
shadows the MAC, and no address marker among the flags shadows the status or an address. -/
theorem parse_render_iff (ps : List (Record × Layout)) (heap : Alloc)
    (hdistinct : (ps.map fun p => p.1.name.bytes).Nodup) (hheap : AllocationsSucceed heap) :
    (parseDataBuffer [] (some (render ps)) heap).1 = ps.map (fun p => p.1.node) ↔
      ∀ p ∈ ps, MacUnshadowed p.1 p.2 ∧ FlagsHarmless p.1 p.2 := by
  rw [parseDataBuffer_render ps hdistinct hheap, List.map_inj_left]
  exact forall₂_congr fun p _ => seenNode_eq_iff p.1 p.2

section Samples

/-- The word of a literal. -/
def literal {limit : ℕ} (s : String) (hne : str s ≠ []) (hlen : (str s).length ≤ limit)
    (hclean : Clean (str s)) : Word limit := ⟨str s, hne, hlen, hclean⟩

/-- The layout of `ens33` in the sample of the database, with one of its counter lines. -/
def sampleLayout : Layout where
  gap := 4
  encap := ⟨str "Ethernet", by decide⟩
  trail := 2
  indent := 9
  scope := str "Link"
  scopeClean := by decide
  flagsBefore := []
  flagsAfter := [⟨str "BROADCAST", by decide, by decide⟩]
  mtu := 1500
  metric := 1
  counters := [⟨str "collisions:0 txqueuelen:1000 ", by decide, by decide, by decide, by decide⟩]

/-- An interface of the given name, up, with an IPv4 and an IPv6 address. -/
def sampleRecord (name : Word 15) (mac : Option (Word 64)) : Record where
  name := name
  mac := mac
  inet := some
    ⟨literal "192.168.94.42" (by decide) (by decide) (by decide), none,
      literal "255.255.255.0" (by decide) (by decide) (by decide)⟩
  inet6 := some (literal "fe80::1/64" (by decide) (by decide) (by decide))
  up := true

/-- Nothing in the layout of the sample is taken for a marker. -/
theorem sampleRecord_unmarked {name : Word 15} {mac : Option (Word 64)}
    (hname : strstr name.bytes (str "HWaddr") = none) :
    MacUnshadowed (sampleRecord name mac) sampleLayout ∧
      FlagsHarmless (sampleRecord name mac) sampleLayout := by
  constructor
  · intro w hw
    have hshadow : macShadow (sampleRecord name mac) sampleLayout = none := by
      have h1 : nameShadow (sampleRecord name mac) = none := by
        rw [nameShadow, sampleRecord, hname, Option.map_none]
      have h2 : encapShadow (sampleRecord name mac) sampleLayout = none := by
        have hencap : strstr sampleLayout.encap.bytes (str "HWaddr") = none := by decide
        rw [encapShadow, hencap, Option.map_none]
      rw [macShadow, h1, h2, Option.or_none]
    rw [hshadow] at hw
    cases hw
  · have hline : flagsLine (sampleRecord name mac) sampleLayout =
        str "UP BROADCAST  MTU:1500  Metric:1" := by
      -- the line depends on the status only
      show flagsLine ⟨literal "a" (by decide) (by decide) (by decide), none, none, none, true⟩
        sampleLayout = _
      decide
    left
    rw [FlagsUnmarked, hline]
    decide

/-- An interface as in the sample of the database is read back. -/
theorem parse_render_iff_sample :
    (parseDataBuffer [] (some (render
      [(sampleRecord (literal "ens33" (by decide) (by decide) (by decide))
        (some (literal "00:0c:29:ff:74:cc" (by decide) (by decide) (by decide))),
        sampleLayout)])) []).1 =
      [⟨str "ens33", str "00:0c:29:ff:74:cc", str "192.168.94.42", [], str "255.255.255.0",
        str "fe80::1/64", str "UP"⟩] := by
  refine (parse_render_iff [_] [] (List.nodup_singleton _) (by intro ok hok; cases hok)).mpr ?_
  intro p hp
  rw [List.mem_singleton.mp hp]
  exact sampleRecord_unmarked (by decide)

/-- **An interface named `HWaddr0` without a MAC is given the MAC `0`.** -/
theorem parse_render_shadowed :
    (parseDataBuffer [] (some (render
      [(sampleRecord (literal "HWaddr0" (by decide) (by decide) (by decide)) none,
        sampleLayout)])) []).1 ≠
      [(sampleRecord (literal "HWaddr0" (by decide) (by decide) (by decide)) none).node] := by
  rw [parseDataBuffer_render [_] (List.nodup_singleton _) (by intro ok hok; cases hok)]
  intro h
  have hmac := congrArg (List.map Fields.mac) h
  exact absurd hmac (by decide)

end Samples

end Iface
