/-
# The text `ifconfig -a` shows

A record, the layout it is shown in and the text that comes out, after the sample of the
database and the comments of `parser.c`.  Words carry the proof that they are non-empty,
short and free of white space, so a record or a layout out of form cannot be built.

The second half says what the extractors of `parser.c` read on each line of such a text.
Two things come between a record and what is read: the marker `HWaddr` in the interface's
name or in the word after `encap:` (`macShadow`), and flag words that make an address line
of the flags line (`FlagsUnmarked`).
-/
import RouterTools.IfaceBlocks
import RouterTools.Ipv4Tokens

namespace Iface

open CString IfaceParser

/-! ## Records -/

/-- A text without white space. -/
def Clean (s : CString) : Prop := ∀ b ∈ s, isspace b = false

instance : DecidablePred Clean := fun s => List.decidableBAll (fun b => isspace b = false) s

/-- A non-empty text of at most `limit` bytes without white space. -/
structure Word (limit : ℕ) where
  bytes : CString
  nonempty : bytes ≠ []
  length_le : bytes.length ≤ limit
  clean : Clean bytes

/-- The IPv4 group of an interface. -/
structure Inet where
  addr : Word 64
  bcast : Option (Word 64)
  mask : Word 64

/-- An interface. -/
structure Record where
  name : Word 15
  mac : Option (Word 64)
  inet : Option Inet
  inet6 : Option (Word 64)
  up : Bool

/-- The text of a field that may be absent. -/
def optText {limit : ℕ} (w : Option (Word limit)) : CString := (w.map Word.bytes).getD []

/-- The node a record stands for: absent fields are empty. -/
def Record.node (r : Record) : Node where
  name := r.name.bytes
  mac := optText r.mac
  ipv4 := optText (r.inet.map Inet.addr)
  bcast := optText (r.inet.bind Inet.bcast)
  mask := optText (r.inet.map Inet.mask)
  ipv6 := optText r.inet6
  status := if r.up then str "UP" else str "DOWN"

/-! ## Layouts -/

/-- The word after `Link encap:`, as `Ethernet` or `Local Loopback`. -/
structure Encap where
  bytes : CString
  oneLine : newline ∉ bytes

/-- A flag word other than `UP`. -/
structure Flag where
  bytes : CString
  clean : Clean bytes
  notUp : ¬ str "UP" <:+: bytes

/-- A counter line, less its indentation. -/
structure Counter where
  bytes : CString
  oneLine : newline ∉ bytes
  notInet : ¬ str "inet addr:" <:+: bytes
  notInet6 : ¬ str "inet6 addr:" <:+: bytes
  notStatus : ¬ str "MTU:" <:+: bytes

/-- What the text of an interface has besides the record: one space more than `gap`
after the name, `trail` spaces at the end of the header, one space more than `indent` in
front of the other lines. -/
structure Layout where
  gap : ℕ
  encap : Encap
  trail : ℕ
  indent : ℕ
  scope : CString
  scopeClean : Clean scope
  flagsBefore : List Flag
  flagsAfter : List Flag
  mtu : ℕ
  metric : ℕ
  counters : List Counter

/-! ## The text -/

/-- `[HWaddr MAC]`. -/
def macText (mac : Option (Word 64)) : CString :=
  match mac with
  | none => []
  | some mac => str "HWaddr" ++ space :: mac.bytes

/-- `NAME<spaces>Link encap:WORD  [HWaddr MAC]`. -/
def headerLine (r : Record) (l : Layout) : CString :=
  r.name.bytes ++ space :: (spaces l.gap ++ (str "Link" ++ space :: (str "encap" ++ 58 ::
    (l.encap.bytes ++ space :: space :: (macText r.mac ++ spaces l.trail)))))

/-- `[Bcast:B]` with the two spaces before it. -/
def bcastText (bcast : Option (Word 64)) : CString :=
  match bcast with
  | none => []
  | some bcast => space :: space :: (str "Bcast:" ++ bcast.bytes)

/-- What follows `inet addr:`. -/
def inetText (i : Inet) : CString :=
  i.addr.bytes ++ (bcastText i.bcast ++ space :: space :: (str "Mask:" ++ i.mask.bytes))

/-- `inet addr:A  [Bcast:B]  Mask:M`. -/
def inetLine (i : Inet) : CString := str "inet addr:" ++ inetText i

/-- `inet6 addr: V6 Scope:S`. -/
def inet6Line (l : Layout) (v6 : Word 64) : CString :=
  str "inet6 addr:" ++ space :: (v6.bytes ++ space :: (str "Scope:" ++ l.scope))

/-- The flag words in order. -/
def flagWords (r : Record) (l : Layout) : List CString :=
  l.flagsBefore.map Flag.bytes ++ (if r.up then [str "UP"] else []) ++ l.flagsAfter.map Flag.bytes

/-- `MTU:n  Metric:n`. -/
def mtuText (l : Layout) : CString :=
  str "MTU" ++ 58 :: (decimal l.mtu ++ (str "  Metric" ++ 58 :: decimal l.metric))

/-- The flag words, a space after each and one more, and `MTU:n  Metric:n`. -/
def flagsLine (r : Record) (l : Layout) : CString :=
  (flagWords r l).flatMap (fun w => w ++ [space]) ++ space :: mtuText l

/-- A line after the header. -/
def indented (l : Layout) (line : CString) : CString := spaces (l.indent + 1) ++ line

/-- The lines after the header. -/
def subLines (r : Record) (l : Layout) : List CString :=
  (r.inet.toList.map inetLine ++ r.inet6.toList.map (inet6Line l) ++ [flagsLine r l] ++
    l.counters.map Counter.bytes).map (indented l)

/-- The lines of an interface, with the blank line that ends it. -/
def shownLines (p : Record × Layout) : List CString :=
  headerLine p.1 p.2 :: subLines p.1 p.2 ++ [[]]

/-- The text of a list of interfaces. -/
def render (ps : List (Record × Layout)) : CString :=
  (ps.flatMap shownLines).flatMap fun line => line ++ [newline]

/-! ## Words -/

theorem newline_not_mem_of_clean {s : CString} (h : Clean s) : newline ∉ s :=
  fun hmem => absurd (h newline hmem) (by decide)

theorem space_not_mem_of_clean {s : CString} (h : Clean s) : space ∉ s :=
  fun hmem => absurd (h space hmem) (by decide)

/-- A word ends at white space. -/
theorem word_append_cons {p : CString} (hp : Clean p) {d : UInt8}
    (hd : isspace d = true) (s : CString) : word (p ++ d :: s) = p := by
  rw [word, List.takeWhile_append_of_pos (fun b hb => by simp [hp b hb]), List.takeWhile_cons_of_neg (by simp [hd]),
    List.append_nil]

/-- A word ends at the end of the line, or at the spaces there. -/
theorem word_append_spaces {p : CString} (hp : Clean p) (n : ℕ) :
    word (p ++ spaces n) = p := by
  cases n with
  | zero =>
      rw [word, List.takeWhile_append_of_pos (fun b hb => by simp [hp b hb])]
      exact List.append_nil p
  | succ n => exact word_append_cons hp isspace_space (spaces n)

theorem skipSpaces_append {p : CString} (hp : Clean p) (hne : p ≠ [])
    (s : CString) : skipSpaces (p ++ s) = p ++ s := by
  obtain ⟨c, p, rfl⟩ := List.exists_cons_of_ne_nil hne
  exact List.dropWhile_cons_of_neg (by simp [hp c List.mem_cons_self])

theorem skipSpaces_space (s : CString) : skipSpaces (space :: s) = skipSpaces s := rfl

theorem skipSpaces_spaces (n : ℕ) (s : CString) : skipSpaces (spaces n ++ s) = skipSpaces s := by
  induction n with
  | zero => rfl
  | succ n ih => exact ih

/-! ## Searching behind an indentation -/

/-- A search for a text that does not start with a space passes over spaces. -/
theorem strstr_spaces {needle : CString} (h : needle.headD space ≠ space) (n : ℕ) (s : CString) :
    strstr (spaces n ++ s) needle = strstr s needle := by
  cases needle with
  | nil => exact absurd rfl h
  | cons d needle => exact Scan.findSub_replicate_append h.symm n

theorem strstr_space {needle : CString} (h : needle.headD space ≠ space) (s : CString) :
    strstr (space :: s) needle = strstr s needle :=
  strstr_spaces h 1 s

theorem infix_indented {needle : CString} (h : needle.headD space ≠ space) (l : Layout)
    (line : CString) : needle <:+: indented l line ↔ needle <:+: line := by
  rw [← strstr_isSome_iff, indented, strstr_spaces h, strstr_isSome_iff]

theorem not_isHeader_indented (l : Layout) (line : CString) : isHeader (indented l line) = false :=
  rfl

/-! ## The header line -/

/-- What follows a marker `HWaddr` in the name: the rest of the name, or the word `Link` if
the marker ends it. -/
def nameShadow (r : Record) : Option CString :=
  (strstr r.name.bytes (str "HWaddr")).map fun ptr =>
    if ptr.drop 6 = [] then str "Link" else ptr.drop 6

/-- What follows a marker `HWaddr` in the word after `encap:`: the word behind it, or what the
header goes on with if the marker ends it, `HWaddr` in front of a MAC and nothing else. -/
def encapShadow (r : Record) (l : Layout) : Option CString :=
  (strstr l.encap.bytes (str "HWaddr")).map fun ptr =>
    if skipSpaces (ptr.drop 6) = [] then
      match r.mac with
      | none => []
      | some _ => str "HWaddr"
    else word (skipSpaces (ptr.drop 6))

/-- What follows the first marker `HWaddr` in front of the MAC's own. -/
def macShadow (r : Record) (l : Layout) : Option CString := (nameShadow r).or (encapShadow r l)

/-- What `parser_mac` reads on the header of a record, as far as its buffer goes. -/
def macRead (r : Record) (l : Layout) : CString :=
  copyTo 256 ((macShadow r l).getD (optText r.mac))

theorem isHeader_headerLine (r : Record) (l : Layout) : isHeader (headerLine r l) = true := by
  obtain ⟨c, name, hname⟩ := List.exists_cons_of_ne_nil r.name.nonempty
  have hc : isspace c = false := r.name.clean c (by rw [hname]; exact List.mem_cons_self)
  have hoccurs : str "Link encap:" <:+: headerLine r l := by
    refine ⟨r.name.bytes ++ space :: spaces l.gap,
      l.encap.bytes ++ space :: space :: (macText r.mac ++ spaces l.trail), ?_⟩
    have hstr : str "Link encap:" = str "Link" ++ space :: (str "encap" ++ [58]) := by decide
    rw [hstr, headerLine]
    simp only [List.append_assoc, List.cons_append, List.nil_append]
  have hhead : (headerLine r l).headD 0 = c := by rw [headerLine, hname]; rfl
  rw [isHeader, hhead, hc, strstr_isSome_iff.mpr hoccurs]
  rfl

/-- `parser_name` reads the name. -/
theorem parserName_headerLine (r : Record) (l : Layout) :
    parserName (headerLine r l) 256 [] = r.name.bytes := by
  have hlen := r.name.length_le
  obtain ⟨n, hn⟩ : ∃ n, 255 = r.name.bytes.length + (n + 1) :=
    ⟨254 - r.name.bytes.length, by omega⟩
  have hcopy : ∀ s, lineCopy (r.name.bytes ++ space :: s) = r.name.bytes ++ space :: s.take n := by
    intro s
    show (r.name.bytes ++ space :: s).take 255 = _
    rw [hn, List.take_length_add_append, List.take_succ_cons]
  have hclean : ∀ b ∈ r.name.bytes, (str " \t").contains b = false := by
    intro b hb
    have hb' := r.name.clean b hb
    by_contra hmem
    rw [Bool.not_eq_false] at hmem
    have hcases : b = 32 ∨ b = 9 := by simpa [str] using hmem
    rcases hcases with rfl | rfl <;> exact absurd hb' (by decide)
  rw [parserName, if_neg (by decide), headerLine, hcopy, strtok,
    Scan.tokens_append_cons hclean r.name.nonempty (by decide)]
  exact copyTo_of_le (by omega)

/-- The header behind a name without the marker. -/
theorem strstr_headerLine (r : Record) (l : Layout) (h : strstr r.name.bytes (str "HWaddr") = none) :
    strstr (headerLine r l) (str "HWaddr") =
      strstr (l.encap.bytes ++ space :: space :: (macText r.mac ++ spaces l.trail))
        (str "HWaddr") := by
  have hne : str "HWaddr" ≠ [] := by decide
  have hspace : space ∉ str "HWaddr" := by decide
  rw [headerLine, strstr, Scan.findSub_append_cons hspace hne (strstr_eq_none_iff.mp h), ← strstr,
    strstr_spaces (by decide), strstr, Scan.findSub_append_cons hspace hne (by decide),
    Scan.findSub_append_cons (by decide) hne (by decide), ← strstr]

/-- With a header free of other markers, the one found is the one in front of the MAC. -/
theorem parserMac_of_unmarked (r : Record) (l : Layout)
    (hname : strstr r.name.bytes (str "HWaddr") = none)
    (hencap : strstr l.encap.bytes (str "HWaddr") = none) :
    parserMac (headerLine r l) 256 [] = copyTo 256 (optText r.mac) := by
  have hfront : strstr (headerLine r l) (str "HWaddr") =
      strstr (macText r.mac ++ spaces l.trail) (str "HWaddr") := by
    rw [strstr_headerLine r l hname, strstr, Scan.findSub_append_cons (by decide) (by decide)
      (strstr_eq_none_iff.mp hencap), ← strstr, strstr_space (by decide)]
  rw [parserMac, wordAfter, if_neg (by decide), hfront]
  cases r.mac with
  | none =>
      have hnone : strstr (macText none ++ spaces l.trail) (str "HWaddr") = none := by
        rw [strstr_eq_none_iff]
        show ¬ str "HWaddr" <:+: spaces l.trail
        exact Scan.not_infix_of_not_mem (c := 72) (by decide) (not_mem_spaces (by decide) _)
      rw [hnone]
      rfl
  | some mac =>
      have hsome : strstr (macText (some mac) ++ spaces l.trail) (str "HWaddr") =
          some (str "HWaddr" ++ (space :: mac.bytes ++ spaces l.trail)) := by
        rw [macText, List.append_assoc]
        exact Scan.findSub_of_prefix (List.prefix_append _ _)
      rw [hsome]
      show copyTo 256 (word (skipSpaces (space :: mac.bytes ++ spaces l.trail))) =
        copyTo 256 mac.bytes
      rw [List.cons_append, skipSpaces_space, skipSpaces_append mac.clean mac.nonempty,
        word_append_spaces mac.clean]

/-- With the marker in the name, the word after it is read: the rest of the name, or the
next word of the line where the marker ends the name. -/
theorem parserMac_of_name (r : Record) (l : Layout) {ptr : CString}
    (hname : strstr r.name.bytes (str "HWaddr") = some ptr) :
    parserMac (headerLine r l) 256 [] =
      copyTo 256 (if ptr.drop 6 = [] then str "Link" else ptr.drop 6) := by
  rw [parserMac, wordAfter, if_neg (by decide)]
  obtain ⟨⟨rest, hrest⟩, hsuffix⟩ := Scan.findSub_eq_some hname
  have hclean : Clean rest := by
    intro b hb
    apply r.name.clean b
    exact hsuffix.subset (by rw [← hrest]; exact List.mem_append_right _ hb)
  have hdrop : ptr.drop 6 = rest := by rw [← hrest]; rfl
  -- the first marker of the name is the first of the line
  have hfound : strstr (headerLine r l) (str "HWaddr") =
      some (str "HWaddr" ++ (rest ++ space :: (spaces l.gap ++ (str "Link" ++ space ::
        (str "encap" ++ 58 :: (l.encap.bytes ++ space :: space ::
          (macText r.mac ++ spaces l.trail))))))) := by
    rw [← List.append_assoc, hrest]
    exact Scan.findSub_append_of_some hname
  rw [hfound]
  dsimp only
  rw [hdrop, List.drop_left]
  by_cases hnil : rest = []
  · -- the marker ends the name: the next word of the line is `Link`
    rw [if_pos hnil, hnil, List.nil_append, skipSpaces_space, skipSpaces_spaces,
      skipSpaces_append (by decide) (by decide), word_append_cons (by decide) isspace_space]
  · rw [if_neg hnil, skipSpaces_append hclean hnil, word_append_cons hclean isspace_space]

/-- White space that is skipped up to something is skipped in front of more, too. -/
theorem skipSpaces_append_of_ne_nil {p : CString} (h : skipSpaces p ≠ []) (s : CString) :
    skipSpaces (p ++ s) = skipSpaces p ++ s := by
  induction p with
  | nil => exact absurd rfl h
  | cons c p ih =>
      by_cases hc : isspace c = true
      · simp only [skipSpaces, List.cons_append, List.dropWhile_cons_of_pos hc] at h ⊢
        exact ih h
      · simp only [skipSpaces, List.cons_append, List.dropWhile_cons_of_neg hc]

/-- A text of white space is skipped whole. -/
theorem skipSpaces_append_of_nil {p : CString} (h : skipSpaces p = []) (s : CString) :
    skipSpaces (p ++ s) = skipSpaces s :=
  List.dropWhile_append_of_pos (List.dropWhile_eq_nil_iff.mp h)

/-- A word that a further text only follows behind white space. -/
theorem word_append_space (p s : CString) : word (p ++ space :: s) = word p := by
  induction p with
  | nil => rfl
  | cons c p ih =>
      by_cases hc : isspace c = true
      · simp only [word, List.cons_append, List.takeWhile_cons, hc, Bool.not_true,
          Bool.false_eq_true, if_false]
      · simp only [Bool.not_eq_true] at hc
        simp only [word, List.cons_append, List.takeWhile_cons, hc, Bool.not_false, if_true]
        exact congrArg (c :: ·) ih

/-- With the marker in the word after `encap:` and not in the name, the word after it is read. -/
theorem parserMac_of_encap (r : Record) (l : Layout) {ptr : CString}
    (hname : strstr r.name.bytes (str "HWaddr") = none)
    (hencap : strstr l.encap.bytes (str "HWaddr") = some ptr) :
    some (parserMac (headerLine r l) 256 []) = (encapShadow r l).map (copyTo 256) := by
  obtain ⟨⟨rest, hrest⟩, -⟩ := Scan.findSub_eq_some hencap
  have hdrop : ptr.drop 6 = rest := by rw [← hrest]; rfl
  have hfound : strstr (headerLine r l) (str "HWaddr") =
      some (str "HWaddr" ++ (rest ++ space :: space :: (macText r.mac ++ spaces l.trail))) := by
    rw [strstr_headerLine r l hname, ← List.append_assoc, hrest]
    exact Scan.findSub_append_of_some hencap
  rw [parserMac, wordAfter, if_neg (by decide), hfound, encapShadow, hencap, Option.map_some,
    Option.map_some, hdrop]
  dsimp only
  rw [List.drop_left]
  by_cases hnil : skipSpaces rest = []
  · rw [if_pos hnil, skipSpaces_append_of_nil hnil, skipSpaces_space, skipSpaces_space]
    cases r.mac with
    | none =>
        have hspaces := skipSpaces_spaces l.trail []
        rw [List.append_nil] at hspaces
        show some (copyTo 256 (word (skipSpaces (spaces l.trail)))) = some (copyTo 256 [])
        rw [hspaces]
        rfl
    | some mac =>
        rw [macText, List.append_assoc, skipSpaces_append (by decide) (by decide), List.cons_append,
          word_append_cons (by decide) isspace_space]
  · rw [if_neg hnil, skipSpaces_append_of_ne_nil hnil, word_append_space]

/-- **`parser_mac` reads the MAC**, unless the marker `HWaddr` stands in front of its own. -/
theorem parserMac_headerLine (r : Record) (l : Layout) :
    parserMac (headerLine r l) 256 [] = macRead r l := by
  rw [macRead, macShadow, nameShadow]
  cases hname : strstr r.name.bytes (str "HWaddr") with
  | some ptr => exact parserMac_of_name r l hname
  | none =>
      rw [Option.map_none, Option.none_or]
      cases hencap : strstr l.encap.bytes (str "HWaddr") with
      | none =>
          have hnone : encapShadow r l = none := by rw [encapShadow, hencap, Option.map_none]
          rw [hnone]
          exact parserMac_of_unmarked r l hname hencap
      | some ptr =>
          have hread := parserMac_of_encap r l hname hencap
          obtain ⟨w, hw⟩ : ∃ w, encapShadow r l = some w := by
            rw [encapShadow, hencap]
            exact ⟨_, rfl⟩
          rw [hw] at hread ⊢
          exact Option.some.inj hread

/-! ## The `inet addr:` line -/

theorem isInetLine_inetLine (l : Layout) (i : Inet) : IsInetLine (indented l (inetLine i)) :=
  (infix_indented (by decide) l _).mpr (List.prefix_append _ _).isInfix

/-- The words of an `inet addr:` line. -/
theorem strtok_inetText (i : Inet) :
    strtok (inetText i) (str " \t\n") =
      i.addr.bytes :: ((i.bcast.map fun b => str "Bcast:" ++ b.bytes).toList ++
        [str "Mask:" ++ i.mask.bytes]) := by
  have hdelim : ∀ b : UInt8, isspace b = false → (str " \t\n").contains b = false := by
    intro b hb
    by_contra hmem
    rw [Bool.not_eq_false] at hmem
    have hcases : b = 32 ∨ b = 9 ∨ b = 10 := by simpa [str] using hmem
    rcases hcases with rfl | rfl | rfl <;> exact absurd hb (by decide)
  -- a label and its word are one token
  have hlabel : ∀ (label : CString) (w : Word 64), Clean label →
      ∀ b ∈ label ++ w.bytes, (str " \t\n").contains b = false := by
    intro label w hclean b hb
    rcases List.mem_append.mp hb with h | h
    · exact hdelim b (hclean b h)
    · exact hdelim b (w.clean b h)
  have hspace : (str " \t\n").contains space = true := by decide
  have hmask : strtok (str "Mask:" ++ i.mask.bytes) (str " \t\n") = [str "Mask:" ++ i.mask.bytes] :=
    Scan.tokens_of_clean (hlabel _ i.mask (by decide)) (List.append_ne_nil_of_left_ne_nil (by decide) _)
  have haddr := hlabel [] i.addr (by decide)
  rw [List.nil_append] at haddr
  rw [strtok] at hmask
  rw [inetText, strtok]
  cases i.bcast with
  | none =>
      rw [bcastText, List.nil_append,
        Scan.tokens_append_cons haddr i.addr.nonempty hspace, Scan.tokens_cons hspace, hmask]
      rfl
  | some b =>
      rw [bcastText, List.cons_append, List.cons_append,
        Scan.tokens_append_cons haddr i.addr.nonempty hspace, Scan.tokens_cons hspace,
        Scan.tokens_append_cons (hlabel _ b (by decide))
          (List.append_ne_nil_of_left_ne_nil (by decide) _) hspace,
        Scan.tokens_cons hspace, hmask]
      rfl

theorem inetText_length (i : Inet) : (inetText i).length ≤ 255 := by
  have h1 := i.addr.length_le
  have h2 := i.mask.length_le
  have hb : (bcastText i.bcast).length ≤ 72 := by
    cases i.bcast with
    | none => exact Nat.zero_le _
    | some b =>
        have h3 := b.length_le
        simp only [bcastText, List.length_cons, List.length_append]
        have h4 : (str "Bcast:").length = 6 := by decide
        omega
  have hm : (str "Mask:").length = 5 := by decide
  simp only [inetText, List.length_append, List.length_cons]
  omega

/-- A token `Bcast:B` goes to its buffer. -/
theorem ipv4Token_bcast (bufs : Ipv4) (w : Word 64) :
    ipv4Token ⟨256, 256, 256⟩ bufs (str "Bcast:" ++ w.bytes) = { bufs with bcast := w.bytes } := by
  have hlen := w.length_le
  rw [ipv4Token, if_pos ⟨List.prefix_append _ _, by decide⟩]
  show { bufs with bcast := copyTo 256 w.bytes } = _
  rw [copyTo_of_le (by omega)]

/-- A token `Mask:M` goes to its buffer. -/
theorem ipv4Token_mask (bufs : Ipv4) (w : Word 64) :
    ipv4Token ⟨256, 256, 256⟩ bufs (str "Mask:" ++ w.bytes) = { bufs with mask := w.bytes } := by
  have hlen := w.length_le
  have hbcast : ¬ str "Bcast:" <+: str "Mask:" ++ w.bytes := by
    intro h
    exact absurd (List.cons_prefix_cons.mp h).1 (by decide)
  rw [ipv4Token, if_neg (fun h => hbcast h.1), if_pos ⟨List.prefix_append _ _, by decide⟩]
  show { bufs with mask := copyTo 256 w.bytes } = _
  rw [copyTo_of_le (by omega)]

/-- **`parser_ipv4` reads the group.** -/
theorem parserIpv4_inetLine (l : Layout) (i : Inet) :
    parserIpv4 (indented l (inetLine i)) ⟨256, 256, 256⟩ ⟨[], [], []⟩ =
      ⟨i.addr.bytes, optText i.bcast, i.mask.bytes⟩ := by
  have hlen := i.addr.length_le
  have hfound : strstr (indented l (inetLine i)) (str "inet addr:") =
      some (str "inet addr:" ++ inetText i) := by
    rw [indented, strstr_spaces (by decide)]
    exact Scan.findSub_of_prefix (List.prefix_append _ _)
  have hcopy : lineCopy (inetText i) = inetText i := copyTo_of_le (inetText_length i)
  rw [parserIpv4, hfound]
  dsimp only
  rw [List.drop_left, hcopy, strtok_inetText]
  dsimp only
  rw [if_pos (by decide), copyTo_of_le (by omega)]
  cases i.bcast with
  | none => exact ipv4Token_mask _ i.mask
  | some b =>
      rw [Option.map_some, Option.toList_some, List.singleton_append, List.foldl_cons,
        ipv4Token_bcast, List.foldl_cons, ipv4Token_mask]
      rfl

/-! ## The `inet6 addr:` line -/

theorem infix_inet6Line (l : Layout) (v6 : Word 64) :
    str "inet6 addr:" <:+: indented l (inet6Line l v6) :=
  (infix_indented (by decide) l _).mpr (List.prefix_append _ _).isInfix

/-- No address or scope makes an `inet addr:` of an `inet6 addr:` line. -/
theorem not_isInetLine_inet6Line (l : Layout) (v6 : Word 64) :
    ¬ IsInetLine (indented l (inet6Line l v6)) := by
  have hmarker : str "inet addr:" = str "inet" ++ space :: str "addr:" := by decide
  have hline : inet6Line l v6 =
      str "inet6" ++ space :: (str "addr:" ++ space :: (v6.bytes ++ space ::
        (str "Scope:" ++ l.scope))) := rfl
  have hinet : space ∉ str "inet" := by decide
  rw [IsInetLine, infix_indented (by decide), hline, hmarker,
    Scan.infix_append_cons_iff hinet (by decide), Scan.infix_append_cons_iff hinet (by decide),
    Scan.infix_append_cons_iff hinet (space_not_mem_of_clean v6.clean)]
  rintro (⟨h, -⟩ | ⟨h, -⟩ | ⟨-, h⟩ | h)
  · exact absurd h (by decide)
  · exact absurd h (by decide)
  · exact absurd (List.cons_prefix_cons.mp h).1 (by decide)
  · refine Scan.not_infix_of_not_mem (c := space) (by simp) ?_ h
    rw [List.mem_append, not_or]
    exact ⟨by decide, space_not_mem_of_clean l.scopeClean⟩

/-- **`parser_ipv6` reads the address.** -/
theorem parserIpv6_inet6Line (l : Layout) (v6 : Word 64) :
    parserIpv6 (indented l (inet6Line l v6)) 256 [] = v6.bytes := by
  have hlen := v6.length_le
  have hfound : strstr (indented l (inet6Line l v6)) (str "inet6 addr:") =
      some (str "inet6 addr:" ++ space :: (v6.bytes ++ space :: (str "Scope:" ++ l.scope))) := by
    rw [indented, strstr_spaces (by decide)]
    exact Scan.findSub_of_prefix (List.prefix_append _ _)
  rw [parserIpv6, wordAfter, if_neg (by decide), hfound]
  dsimp only
  rw [List.drop_left, skipSpaces_space, skipSpaces_append v6.clean v6.nonempty,
    word_append_cons v6.clean isspace_space, copyTo_of_le (by omega)]

/-! ## The flags line -/

/-- A flag word is one of the layout's, or `UP` on an interface that is up. -/
theorem mem_flagWords {r : Record} {l : Layout} {w : CString} (h : w ∈ flagWords r l) :
    (∃ f : Flag, w = f.bytes) ∨ (r.up = true ∧ w = str "UP") := by
  rw [flagWords, List.mem_append, List.mem_append] at h
  rcases h with (hw | hw) | hw
  · obtain ⟨f, -, rfl⟩ := List.mem_map.mp hw
    exact .inl ⟨f, rfl⟩
  · cases hup : r.up with
    | false =>
        rw [hup] at hw
        cases hw
    | true =>
        rw [hup] at hw
        exact .inr ⟨rfl, List.mem_singleton.mp hw⟩
  · obtain ⟨f, -, rfl⟩ := List.mem_map.mp hw
    exact .inl ⟨f, rfl⟩

/-- A byte that no flag word has, and that is no space, is not among the words. -/
theorem not_mem_flagWords (r : Record) (l : Layout) {b : UInt8} (hflag : ∀ f : Flag, b ∉ f.bytes)
    (hup : b ∉ str "UP") (hspace : b ≠ space) :
    b ∉ (flagWords r l).flatMap fun w => w ++ [space] := by
  intro hmem
  obtain ⟨w, hw, hmem⟩ := List.mem_flatMap.mp hmem
  rcases List.mem_append.mp hmem with hmem | hmem
  · rcases mem_flagWords hw with ⟨f, rfl⟩ | ⟨-, rfl⟩
    · exact hflag f hmem
    · exact hup hmem
  · exact hspace (List.mem_singleton.mp hmem)

/-- The flags line is no address line: no word of it that ends in `inet` or `inet6` stands in
front of one that starts with `addr:`. -/
def FlagsUnmarked (r : Record) (l : Layout) : Prop :=
  ¬ str "inet addr:" <:+: flagsLine r l ∧ ¬ str "inet6 addr:" <:+: flagsLine r l

instance (r : Record) (l : Layout) : Decidable (FlagsUnmarked r l) :=
  inferInstanceAs (Decidable (_ ∧ _))

theorem mtu_infix_flagsLine (r : Record) (l : Layout) :
    str "MTU:" <:+: indented l (flagsLine r l) := by
  rw [infix_indented (by decide)]
  refine ⟨((flagWords r l).flatMap fun w => w ++ [space]) ++ [space],
    decimal l.mtu ++ (str "  Metric" ++ 58 :: decimal l.metric), ?_⟩
  have hmarker : str "MTU:" = str "MTU" ++ [58] := by decide
  rw [hmarker, flagsLine, mtuText]
  simp only [List.append_assoc, List.cons_append, List.nil_append]

/-- The search for a text without a space passes over words that lack it. -/
theorem findSub_words {needle : CString} (hspace : space ∉ needle) (hne : needle ≠ [])
    (ws : List CString) (hws : ∀ w ∈ ws, ¬ needle <:+: w) (s : CString) :
    Scan.findSub needle (ws.flatMap (fun w => w ++ [space]) ++ s) = Scan.findSub needle s := by
  induction ws with
  | nil => rfl
  | cons w ws ih =>
      rw [List.flatMap_cons, List.append_assoc, List.append_assoc, List.singleton_append,
        Scan.findSub_append_cons hspace hne (hws w List.mem_cons_self)]
      exact ih fun w' hw' => hws w' (List.mem_cons_of_mem w hw')

/-- `UP` occurs on the flags line exactly when it is one of its words. -/
theorem up_infix_flagsLine (r : Record) (l : Layout) :
    str "UP" <:+: indented l (flagsLine r l) ↔ r.up = true := by
  rw [infix_indented (by decide)]
  constructor
  · intro h
    by_contra hup
    rw [Bool.not_eq_true] at hup
    -- without the flag no word of the line has `UP` in it, and the rest has no `P`
    have hwords : ∀ w ∈ flagWords r l, ¬ str "UP" <:+: w := by
      intro w hw
      rcases mem_flagWords hw with ⟨f, rfl⟩ | ⟨hup', -⟩
      · exact f.notUp
      · exact absurd (hup.symm.trans hup') Bool.false_ne_true
    rw [← Scan.findSub_isSome_iff, flagsLine, findSub_words (by decide) (by decide) _ hwords,
      Scan.findSub_isSome_iff] at h
    refine Scan.not_infix_of_not_mem (c := 80) (by decide) ?_ h
    have hmtu : (80 : UInt8) ∉ decimal l.mtu := not_mem_decimal (by decide)
    have hmetric : (80 : UInt8) ∉ decimal l.metric := not_mem_decimal (by decide)
    have h1 : (80 : UInt8) ∉ str "MTU" := by decide
    have h2 : (80 : UInt8) ∉ str "  Metric" := by decide
    simp only [mtuText, List.mem_cons, List.mem_append, not_or]
    exact ⟨by decide, h1, by decide, hmtu, h2, by decide, hmetric⟩
  · intro hup
    refine ⟨(l.flagsBefore.map Flag.bytes).flatMap fun w => w ++ [space],
      space :: ((l.flagsAfter.map Flag.bytes).flatMap (fun w => w ++ [space]) ++
        space :: mtuText l), ?_⟩
    rw [flagsLine, flagWords, hup, if_pos rfl, List.flatMap_append, List.flatMap_append,
      List.flatMap_singleton]
    simp only [List.append_assoc, List.cons_append, List.nil_append]

/-- **`parser_status` reads the status.** -/
theorem parserStatus_flagsLine (r : Record) (l : Layout) :
    parserStatus (indented l (flagsLine r l)) 256 [] =
      if r.up then str "UP" else str "DOWN" := by
  rw [parserStatus, if_neg (by decide)]
  simp only [strstr_isSome_iff, up_infix_flagsLine]
  cases hup : r.up with
  | true =>
      rw [if_pos ⟨mtu_infix_flagsLine r l, rfl⟩]
      rfl
  | false =>
      rw [if_neg (fun h => Bool.false_ne_true h.2)]
      rfl

end Iface
