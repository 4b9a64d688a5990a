/-
# What `parser_ipv4` makes of a line

The function takes the text after `inet addr:` apart with `strtok`, in a copy of
255 bytes, while its caller passes lines of any length.  `lineIpv4` says what is on the
whole line: the first token, and what follows `Bcast:` and `Mask:` in the last later
token with the marker.  Whether the two agree is seen from the tokens of the line, each
with the part of it that the copy has (`shownTokens`).
-/
import RouterTools.IfaceParser

namespace IfaceParser

open CString

/-! ## What is on the line -/

/-- The delimiters of `parser_ipv4`. -/
def ipv4Delims : CString := str " \t\n"

/-- The text after the first `inet addr:`. -/
def ipv4Text (line : CString) : Option CString :=
  (strstr line (str "inet addr:")).map fun ptr => ptr.drop (str "inet addr:").length

/-- The text after the marker in the last token that starts with it, empty when there is
none. -/
def lastMarked (marker : CString) (tokens : List CString) : CString :=
  match (tokens.filter fun w => marker <+: w).getLast? with
  | none => []
  | some w => w.drop marker.length

/-- The three fields in a list of tokens, each cut to its own buffer. -/
def ipv4Fields (sizes : Ipv4Sizes) : List CString → Ipv4
  | [] => ⟨[], [], []⟩
  | token :: later =>
      ⟨copyTo sizes.ipv4 token, copyTo sizes.bcast (lastMarked (str "Bcast:") later),
        copyTo sizes.mask (lastMarked (str "Mask:") later)⟩

/-- The three fields on the whole line. -/
def lineIpv4 (sizes : Ipv4Sizes) (line : CString) : Ipv4 :=
  match ipv4Text line with
  | none => ⟨[], [], []⟩
  | some text => ipv4Fields sizes (strtok text ipv4Delims)

theorem lastMarked_concat (marker w : CString) (tokens : List CString) :
    lastMarked marker (tokens ++ [w]) =
      if marker <+: w then w.drop marker.length else lastMarked marker tokens := by
  rw [lastMarked, lastMarked, List.filter_append]
  split_ifs with h
  · rw [List.filter_cons_of_pos (by simpa using h), List.filter_nil, List.getLast?_concat]
  · rw [List.filter_cons_of_neg (by simpa using h), List.filter_nil, List.append_nil]

/-- An empty token has no marker. -/
theorem lastMarked_filter {marker : CString} (hmarker : marker ≠ []) (tokens : List CString) :
    lastMarked marker (tokens.filter (· ≠ [])) = lastMarked marker tokens := by
  rw [lastMarked, lastMarked, List.filter_filter]
  congr 2
  apply List.filter_congr
  intro w _
  by_cases hw : marker <+: w
  · have hwne : w ≠ [] := fun hnil => hmarker (List.prefix_nil.mp (hnil ▸ hw))
    simp [hw, hwne]
  · simp [hw]

/-- No token starts with both markers. -/
theorem not_mask_of_bcast {w : CString} (h : str "Bcast:" <+: w) : ¬ str "Mask:" <+: w := by
  intro hmask
  cases w with
  | nil => exact absurd (List.prefix_nil.mp h) (by decide)
  | cons c w =>
      have hB : (66 : UInt8) = c := (List.cons_prefix_cons.mp h).1
      have hM : (77 : UInt8) = c := (List.cons_prefix_cons.mp hmask).1
      exact absurd (hB.trans hM.symm) (by decide)

/-- The loop over the further tokens keeps the last marked texts. -/
theorem foldl_ipv4Token {sizes : Ipv4Sizes} (hbcast : 0 < sizes.bcast) (hmask : 0 < sizes.mask)
    (ipv4 : CString) (tokens : List CString) :
    tokens.foldl (ipv4Token sizes) ⟨ipv4, [], []⟩ =
      ⟨ipv4, copyTo sizes.bcast (lastMarked (str "Bcast:") tokens),
        copyTo sizes.mask (lastMarked (str "Mask:") tokens)⟩ := by
  induction tokens using List.reverseRecOn with
  | nil => simp [lastMarked, copyTo]
  | append_singleton tokens w ih =>
      rw [List.foldl_append, ih, List.foldl_cons, List.foldl_nil, ipv4Token,
        lastMarked_concat, lastMarked_concat]
      by_cases hB : str "Bcast:" <+: w
      · rw [if_pos ⟨hB, hbcast⟩, if_pos hB, if_neg (not_mask_of_bcast hB)]
        rfl
      · rw [if_neg fun h => hB h.1, if_neg hB]
        by_cases hM : str "Mask:" <+: w
        · rw [if_pos ⟨hM, hmask⟩, if_pos hM]
          rfl
        · rw [if_neg fun h => hM h.1, if_neg hM]

/-- With room in every buffer, `parser_ipv4` takes the fields from the copy. -/
theorem parserIpv4_eq {sizes : Ipv4Sizes} (hipv4 : 0 < sizes.ipv4) (hbcast : 0 < sizes.bcast)
    (hmask : 0 < sizes.mask) (line : CString) (old : Ipv4) :
    parserIpv4 line sizes old =
      match ipv4Text line with
      | none => ⟨[], [], []⟩
      | some text => ipv4Fields sizes (strtok (lineCopy text) ipv4Delims) := by
  rw [parserIpv4, ipv4Text]
  cases strstr line (str "inet addr:") with
  | none => simp only [clear, if_pos hipv4, if_pos hbcast, if_pos hmask, Option.map_none]
  | some ptr =>
      simp only [clear, if_pos hipv4, if_pos hbcast, if_pos hmask, Option.map_some]
      show (match strtok (lineCopy _) ipv4Delims with | [] => _ | token :: tokens => _) = _
      cases strtok (lineCopy (ptr.drop (str "inet addr:").length)) ipv4Delims with
      | nil => rfl
      | cons token tokens => exact foldl_ipv4Token hbcast hmask _ tokens

/-! ## What the copy shows of it -/

/-- The tokens of a text, each with the part of it that is in the first 255 bytes. -/
def shownTokens (text : CString) : List (CString × CString) :=
  Scan.tokensAcross (fun b => ipv4Delims.contains b) (text.take 255) (text.drop 255)

/-- A token is shown whole, or at least its first `k` bytes are. -/
def ShownTo (k : ℕ) (q : CString × CString) : Prop := q.2 = q.1 ∨ k ≤ q.2.length

instance (k : ℕ) (q : CString × CString) : Decidable (ShownTo k q) :=
  inferInstanceAs (Decidable (_ ∨ _))

/-- Of the last token with the marker the copy shows the marker and `k` more bytes, or all
there are; where it does not even show the marker, the last marked text that it does show
happens to be the same for `k` bytes. -/
def MarkedShown (marker : CString) (k : ℕ) (later : List (CString × CString)) : Prop :=
  match (later.filter fun q => marker <+: q.1).getLast? with
  | none => True
  | some q =>
      if marker <+: q.2 then ShownTo (marker.length + k) q
      else (lastMarked marker (later.map Prod.snd)).take k = (q.1.drop marker.length).take k

/-- Enough of every field is shown for its buffer. -/
def FieldsShown (sizes : Ipv4Sizes) : List (CString × CString) → Prop
  | [] => True
  | q :: later =>
      ShownTo (sizes.ipv4 - 1) q ∧
        MarkedShown (str "Bcast:") (sizes.bcast - 1) later ∧
        MarkedShown (str "Mask:") (sizes.mask - 1) later

/-- The cut of the copy does no harm: there is no `inet addr:`, or enough of every field
after it is in the first 255 bytes. -/
def CopyHarmless (sizes : Ipv4Sizes) (line : CString) : Prop :=
  ∀ text ∈ ipv4Text line, FieldsShown sizes (shownTokens text)

theorem map_fst_shownTokens (text : CString) :
    (shownTokens text).map Prod.fst = strtok text ipv4Delims := by
  rw [shownTokens, Scan.map_fst_tokensAcross, List.take_append_drop]
  rfl

theorem filter_map_snd_shownTokens (text : CString) :
    ((shownTokens text).map Prod.snd).filter (· ≠ []) = strtok (lineCopy text) ipv4Delims :=
  Scan.filter_map_snd_tokensAcross (text.take 255) (text.drop 255)

/-- Two cut texts agree when enough of the longer one is shown. -/
theorem take_eq_take_iff_shownTo {q : CString × CString} (hq : q.2 <+: q.1) (k : ℕ) :
    q.2.take k = q.1.take k ↔ ShownTo k q := by
  constructor
  · intro h
    -- too little is shown: the cut text of the whole token is longer
    by_contra hno
    rw [ShownTo, not_or, not_le] at hno
    have hlen := congrArg List.length h
    rw [List.length_take, List.length_take, min_eq_right hno.2.le] at hlen
    have hle : q.2.length ≤ q.1.length := hq.length_le
    have hlt : q.2.length ≠ q.1.length := fun he => hno.1 (hq.eq_of_length he)
    omega
  · rintro (heq | hle)
    · rw [heq]
    · obtain ⟨hidden, hfull⟩ := hq
      rw [← hfull, List.take_append_of_le_length hle]

/-- The texts after a marker that both have agree when the texts do. -/
theorem take_drop_eq_iff {marker s t : CString} (hs : marker <+: s) (ht : marker <+: t) (k : ℕ) :
    (s.drop marker.length).take k = (t.drop marker.length).take k ↔
      s.take (marker.length + k) = t.take (marker.length + k) := by
  rw [List.take_add, List.take_add, ← List.prefix_iff_eq_take.mp hs,
    ← List.prefix_iff_eq_take.mp ht, List.append_cancel_left_eq]

theorem markedShown_concat (marker : CString) (k : ℕ) (q : CString × CString)
    (later : List (CString × CString)) (hq : q.2 <+: q.1) :
    MarkedShown marker k (later ++ [q]) ↔
      if marker <+: q.1 then
        if marker <+: q.2 then ShownTo (marker.length + k) q
        else (lastMarked marker (later.map Prod.snd)).take k = (q.1.drop marker.length).take k
      else MarkedShown marker k later := by
  have hshown : ¬ marker <+: q.2 →
      lastMarked marker ((later ++ [q]).map Prod.snd) = lastMarked marker (later.map Prod.snd) := by
    intro h
    rw [List.map_append, List.map_singleton, lastMarked_concat, if_neg h]
  rw [MarkedShown, List.filter_append]
  by_cases hfull : marker <+: q.1
  · rw [if_pos hfull, List.filter_cons_of_pos (by simpa using hfull), List.filter_nil,
      List.getLast?_concat]
    dsimp only
    split_ifs with hpart
    · rfl
    · rw [hshown hpart]
  · rw [if_neg hfull, List.filter_cons_of_neg (by simpa using hfull), List.filter_nil,
      List.append_nil, hshown fun h => hfull (h.trans hq)]
    rfl

/-- **A marked field** is taken from the copy as from the whole text exactly when enough of
it is shown. -/
theorem markedShown_iff (marker : CString) (size : ℕ) (later : List (CString × CString))
    (hparts : ∀ q ∈ later, q.2 <+: q.1) :
    copyTo size (lastMarked marker (later.map Prod.snd)) =
        copyTo size (lastMarked marker (later.map Prod.fst)) ↔
      MarkedShown marker (size - 1) later := by
  induction later using List.reverseRecOn with
  | nil => simp [MarkedShown]
  | append_singleton later q ih =>
      have hq : q.2 <+: q.1 := hparts q (by simp)
      have ih := ih fun r hr => hparts r (List.mem_append_left _ hr)
      rw [markedShown_concat marker _ q later hq]
      simp only [List.map_append, List.map_singleton, lastMarked_concat]
      by_cases hfull : marker <+: q.1
      · rw [if_pos hfull, if_pos hfull]
        by_cases hpart : marker <+: q.2
        · rw [if_pos hpart, if_pos hpart, copyTo, copyTo, take_drop_eq_iff hpart hfull]
          exact take_eq_take_iff_shownTo hq _
        · rw [if_neg hpart, if_neg hpart]
          rfl
      · rw [if_neg hfull, if_neg hfull, if_neg fun h => hfull (h.trans hq)]
        exact ih

/-- The copy shows the tokens from the front on, so that the fields in it are those of the
parts shown. -/
theorem ipv4Fields_shown (sizes : Ipv4Sizes) {q : CString × CString}
    {later : List (CString × CString)} (hne : q.1 ≠ [])
    (hcut : ∀ r ∈ later, q.2 = q.1 ∨ r.2 = []) :
    ipv4Fields sizes (((q :: later).map Prod.snd).filter (· ≠ [])) =
      ⟨copyTo sizes.ipv4 q.2, copyTo sizes.bcast (lastMarked (str "Bcast:") (later.map Prod.snd)),
        copyTo sizes.mask (lastMarked (str "Mask:") (later.map Prod.snd))⟩ := by
  have hB := lastMarked_filter (show str "Bcast:" ≠ [] by decide) (later.map Prod.snd)
  have hM := lastMarked_filter (show str "Mask:" ≠ [] by decide) (later.map Prod.snd)
  rw [List.map_cons]
  by_cases hq : q.2 = []
  · -- nothing is shown of the first token, and so nothing of the later ones
    have hnone : (later.map Prod.snd).filter (· ≠ []) = [] := by
      rw [List.filter_eq_nil_iff]
      intro w hw
      obtain ⟨r, hr, rfl⟩ := List.mem_map.mp hw
      have hr2 : r.2 = [] := (hcut r hr).resolve_left fun h => hne (h.symm.trans hq)
      simp [hr2]
    rw [List.filter_cons_of_neg (by simp [hq]), hnone, hq, ← hB, ← hM, hnone]
    simp [ipv4Fields, copyTo, lastMarked]
  · rw [List.filter_cons_of_pos (by simpa using hq), ipv4Fields, hB, hM]

/-- **The fields in the copy are those on the line** exactly when enough of each is shown. -/
theorem fieldsShown_iff (sizes : Ipv4Sizes) (text : CString) :
    ipv4Fields sizes (strtok (lineCopy text) ipv4Delims) =
        ipv4Fields sizes (strtok text ipv4Delims) ↔ FieldsShown sizes (shownTokens text) := by
  have hparts : ∀ q ∈ shownTokens text, q.2 <+: q.1 :=
    fun q hq => Scan.shown_prefix_of_mem_tokensAcross hq
  have hcut : (shownTokens text).Pairwise fun a b => a.2 = a.1 ∨ b.2 = [] :=
    Scan.pairwise_tokensAcross _ _
  have hne : ∀ q ∈ shownTokens text, q.1 ≠ [] := by
    intro q hq
    have hmem : q.1 ∈ strtok text ipv4Delims := by
      rw [← map_fst_shownTokens]
      exact List.mem_map_of_mem hq
    exact Scan.ne_nil_of_mem_tokens hmem
  rw [← map_fst_shownTokens text, ← filter_map_snd_shownTokens text]
  cases hshown : shownTokens text with
  | nil => exact iff_of_true rfl trivial
  | cons q later =>
      rw [hshown] at hparts hcut hne
      rw [ipv4Fields_shown sizes (hne q List.mem_cons_self) (List.pairwise_cons.mp hcut).1,
        List.map_cons, ipv4Fields, Ipv4.mk.injEq]
      have hlater : ∀ r ∈ later, r.2 <+: r.1 := fun r hr => hparts r (List.mem_cons_of_mem q hr)
      -- each of the three fields on its own
      have hfirst := take_eq_take_iff_shownTo (hparts q List.mem_cons_self) (sizes.ipv4 - 1)
      rw [markedShown_iff _ _ later hlater, markedShown_iff _ _ later hlater]
      exact and_congr_left' hfirst

/-- With at most 255 bytes after `inet addr:` the cut does no harm. -/
theorem copyHarmless_of_length_le (sizes : Ipv4Sizes) {line : CString}
    (h : ∀ text ∈ ipv4Text line, text.length ≤ 255) : CopyHarmless sizes line := by
  intro text htext
  have hcopy : lineCopy text = text := copyTo_of_le (h text htext)
  apply (fieldsShown_iff sizes text).mp
  rw [hcopy]

/-- **When the fields are taken whole**: with room in every buffer, `parser_ipv4` stores
what is on the line exactly when the cut of its copy does no harm. -/
theorem parserIpv4_whole_iff (line : CString) (sizes : Ipv4Sizes) (old : Ipv4)
    (hipv4 : 0 < sizes.ipv4) (hbcast : 0 < sizes.bcast) (hmask : 0 < sizes.mask) :
    parserIpv4 line sizes old = lineIpv4 sizes line ↔ CopyHarmless sizes line := by
  rw [parserIpv4_eq hipv4 hbcast hmask, lineIpv4, CopyHarmless]
  cases ipv4Text line with
  | none => simp
  | some text =>
      rw [show (∀ text' ∈ some text, FieldsShown sizes (shownTokens text')) ↔
        FieldsShown sizes (shownTokens text) by simp]
      exact fieldsShown_iff sizes text

/-- A line as `ifconfig` prints it. -/
theorem parserIpv4_whole_iff_ifconfig :
    parserIpv4 (str "inet addr:10.0.0.1  Bcast:10.0.0.255  Mask:255.255.255.0") ⟨16, 16, 16⟩
        ⟨[], [], []⟩ =
      lineIpv4 ⟨16, 16, 16⟩ (str "inet addr:10.0.0.1  Bcast:10.0.0.255  Mask:255.255.255.0") := by
  apply (parserIpv4_whole_iff _ ⟨16, 16, 16⟩ ⟨[], [], []⟩ (by decide) (by decide)
    (by decide)).mpr
  apply copyHarmless_of_length_le
  decide +kernel

/-- A mask that starts 256 bytes after `inet addr:` is lost. -/
theorem parserIpv4_loses_mask :
    (parserIpv4 (str "inet addr:10.0.0.1" ++ spaces 248 ++ str "Mask:255.255.255.0")
        ⟨16, 16, 16⟩ ⟨[], [], []⟩).mask = [] ∧
      (lineIpv4 ⟨16, 16, 16⟩
        (str "inet addr:10.0.0.1" ++ spaces 248 ++ str "Mask:255.255.255.0")).mask =
          str "255.255.255.0" := by
  decide +kernel

end IfaceParser
