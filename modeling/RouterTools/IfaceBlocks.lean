/-
# What `parse_data_buffer` computes

The parser reads line after line into seven buffers that it reuses.  What it computes is
defined here block by block, without buffers: a header line with the lines up to the
next header gives one record, and of the records of one name the first is kept, unless
the list has that name already.  `parse_data_buffer_blockwise` says that the two agree
on every text.
-/
import RouterTools.IfaceList

namespace Iface

open CString IfaceParser

/-! ## The block-wise definition -/

/-- The non-empty lines of a text. -/
def textLines (data : CString) : List CString := (data.splitOn newline).filter (· ≠ [])

/-- A header line with the lines up to the next one. -/
structure Block where
  header : CString
  body : List CString

/-- The blocks of a text; what stands before the first header belongs to none. -/
def blocks : List CString → List Block
  | [] => []
  | line :: lines =>
      if isHeader line then ⟨line, lines.takeWhile fun l => !isHeader l⟩ :: blocks lines
      else blocks lines

/-- A line that `parser_ipv4` reads. -/
def IsInetLine (line : CString) : Prop := str "inet addr:" <:+: line

/-- A line that `parser_ipv6` reads. -/
def IsInet6Line (line : CString) : Prop := ¬ IsInetLine line ∧ str "inet6 addr:" <:+: line

/-- A line that `parser_status` reads. -/
def IsStatusLine (line : CString) : Prop :=
  ¬ IsInetLine line ∧ ¬ str "inet6 addr:" <:+: line ∧ str "MTU:" <:+: line

instance : DecidablePred IsInetLine := fun line =>
  inferInstanceAs (Decidable (str "inet addr:" <:+: line))

instance : DecidablePred IsInet6Line := fun line =>
  inferInstanceAs (Decidable (¬ IsInetLine line ∧ str "inet6 addr:" <:+: line))

instance : DecidablePred IsStatusLine := fun line =>
  inferInstanceAs
    (Decidable (¬ IsInetLine line ∧ ¬ str "inet6 addr:" <:+: line ∧ str "MTU:" <:+: line))

/-- The last line of a kind in a block. -/
def lastLine (P : CString → Prop) [DecidablePred P] (body : List CString) : Option CString :=
  (body.filter P).getLast?

/-- The IPv4 fields of a block. -/
def blockIpv4 (body : List CString) : Ipv4 :=
  match lastLine IsInetLine body with
  | none => ⟨[], [], []⟩
  | some line => parserIpv4 line ⟨256, 256, 256⟩ ⟨[], [], []⟩

/-- The IPv6 address of a block. -/
def blockIpv6 (body : List CString) : CString :=
  match lastLine IsInet6Line body with
  | none => []
  | some line => parserIpv6 line 256 []

/-- The status of a block. -/
def blockStatus (body : List CString) : CString :=
  match lastLine IsStatusLine body with
  | none => str "DOWN"
  | some line => parserStatus line 256 []

/-- The record of a block. -/
def record (b : Block) : Node where
  name := parserName b.header 256 []
  mac := parserMac b.header 256 []
  ipv4 := (blockIpv4 b.body).ipv4
  bcast := (blockIpv4 b.body).bcast
  mask := (blockIpv4 b.body).mask
  ipv6 := blockIpv6 b.body
  status := blockStatus b.body

/-- The records whose name is not among the names seen before them. -/
def keepNew (seen : List CString) : List Node → List Node
  | [] => []
  | r :: rs =>
      if r.name ∈ seen then keepNew seen rs else r :: keepNew (seen ++ [r.name]) rs

/-! ## The extractors by lines -/

theorem isHeader_name_ne_nil {b : Block} (h : isHeader b.header = true) : (record b).name ≠ [] :=
  parserName_header h

theorem lastLine_concat (P : CString → Prop) [DecidablePred P] (body : List CString)
    (line : CString) :
    lastLine P (body ++ [line]) = if P line then some line else lastLine P body := by
  rw [lastLine, List.filter_append]
  by_cases h : P line
  · simp [h]
  · simp [h, lastLine]

theorem blockIpv4_concat (body : List CString) (line : CString) :
    blockIpv4 (body ++ [line]) =
      if IsInetLine line then parserIpv4 line ⟨256, 256, 256⟩ ⟨[], [], []⟩ else blockIpv4 body := by
  unfold blockIpv4
  rw [lastLine_concat]
  split_ifs <;> rfl

theorem blockIpv6_concat (body : List CString) (line : CString) :
    blockIpv6 (body ++ [line]) =
      if IsInet6Line line then parserIpv6 line 256 [] else blockIpv6 body := by
  unfold blockIpv6
  rw [lastLine_concat]
  split_ifs <;> rfl

theorem blockStatus_concat (body : List CString) (line : CString) :
    blockStatus (body ++ [line]) =
      if IsStatusLine line then parserStatus line 256 [] else blockStatus body := by
  unfold blockStatus
  rw [lastLine_concat]
  split_ifs <;> rfl

/-- **One more line of a block**: the buffers that hold the record of the lines so far
hold the record with that line afterwards. -/
theorem parseSubLine_record (header : CString) (body : List CString) (line : CString) :
    parseSubLine (record ⟨header, body⟩) line = record ⟨header, body ++ [line]⟩ := by
  unfold parseSubLine
  simp only [strstr_isSome_iff]
  by_cases h4 : str "inet addr:" <:+: line
  · -- the first marker on the line decides which buffers it changes
    have hipv4 := parserIpv4_old ⟨256, 256, 256⟩ (by decide) (by decide) (by decide)
      line (blockIpv4 body) ⟨[], [], []⟩
    have hin : IsInetLine line := h4
    have hin6 : ¬ IsInet6Line line := fun h => h.1 h4
    have hst : ¬ IsStatusLine line := fun h => h.1 h4
    rw [if_pos h4]
    simp only [record, blockIpv4_concat, blockIpv6_concat, blockStatus_concat, if_pos hin,
      if_neg hin6, if_neg hst, ← hipv4]
    rfl
  · have hin : ¬ IsInetLine line := h4
    rw [if_neg h4]
    by_cases h6 : str "inet6 addr:" <:+: line
    · have hin6 : IsInet6Line line := ⟨h4, h6⟩
      have hst : ¬ IsStatusLine line := fun h => h.2.1 h6
      rw [if_pos h6]
      simp only [record, blockIpv4_concat, blockIpv6_concat, blockStatus_concat, if_neg hin,
        if_pos hin6, if_neg hst]
      rw [parserIpv6_old (by decide) line _ []]
      rfl
    · have hin6 : ¬ IsInet6Line line := fun h => h6 h.2
      rw [if_neg h6]
      by_cases hm : str "MTU:" <:+: line
      · have hst : IsStatusLine line := ⟨h4, h6, hm⟩
        rw [if_pos hm]
        simp only [record, blockIpv4_concat, blockIpv6_concat, blockStatus_concat, if_neg hin,
          if_neg hin6, if_pos hst]
        rw [parserStatus_old (by decide) line _ []]
        rfl
      · have hst : ¬ IsStatusLine line := fun h => hm h.2.2
        rw [if_neg hm]
        simp only [record, blockIpv4_concat, blockIpv6_concat, blockStatus_concat, if_neg hin,
          if_neg hin6, if_neg hst]

/-- The buffers after a header hold the record of that header alone. -/
theorem record_header (header : CString) :
    { emptyBuffers with
      name := parserName header 256 [], mac := parserMac header 256 [] : Buffers } =
      record ⟨header, []⟩ := rfl

/-! ## When allocations succeed -/

/-- No allocation still to come fails. -/
def AllocationsSucceed (heap : Alloc) : Prop := ∀ ok ∈ heap, ok = true

theorem AllocationsSucceed.alloc {heap : Alloc} (h : AllocationsSucceed heap) :
    ∃ heap', alloc heap = (true, heap') ∧ AllocationsSucceed heap' := by
  cases heap with
  | nil => exact ⟨[], rfl, h⟩
  | cons ok heap =>
      have hok : ok = true := h ok List.mem_cons_self
      exact ⟨heap, by rw [hok]; rfl, fun b hb => h b (List.mem_cons_of_mem ok hb)⟩

theorem AllocationsSucceed.allocs (n : ℕ) : ∀ {heap : Alloc}, AllocationsSucceed heap →
    ∃ heap', allocs n heap = (true, heap') ∧ AllocationsSucceed heap' := by
  induction n with
  | zero => exact fun {heap} h => ⟨heap, rfl, h⟩
  | succ n ih =>
      intro heap h
      obtain ⟨heap₁, h₁, hs₁⟩ := h.alloc
      obtain ⟨heap₂, h₂, hs₂⟩ := ih hs₁
      exact ⟨heap₂, by rw [Iface.allocs, h₁]; exact h₂, hs₂⟩

/-- What a flush does to a list then: it keeps the record if its name is new. -/
theorem flush_eq (head : List Node) (bufs : Buffers) {heap : Alloc} (h : AllocationsSucceed heap)
    (hne : bufs.name ≠ []) :
    ∃ heap', flush head bufs heap = (head ++ keepNew (names head) [bufs], heap') ∧
      AllocationsSucceed heap' := by
  obtain ⟨heap', hallocs, hs⟩ := h.allocs 8
  rw [flush, if_pos hne]
  by_cases hmem : bufs.name ∈ names head
  · refine ⟨heap, ?_, h⟩
    rw [if_neg (by rw [listContainsName_eq_false_iff]; exact not_not_intro hmem), keepNew,
      if_pos hmem]
    simp [keepNew]
  · refine ⟨heap', ?_, hs⟩
    rw [if_pos (listContainsName_eq_false_iff.mpr hmem), keepNew, if_neg hmem, listAdd,
      createNodeInternal, hallocs]
    dsimp only
    rw [append_eq]
    rfl

theorem flush_of_name_eq_nil (head : List Node) {bufs : Buffers} (heap : Alloc)
    (h : bufs.name = []) : flush head bufs heap = (head, heap) := by
  rw [flush, if_neg (not_not_intro h)]

/-- Records are kept one after another, each against the names before it. -/
theorem keepNew_cons (head : List Node) (r : Node) (rs : List Node) :
    head ++ keepNew (names head) (r :: rs) =
      (head ++ keepNew (names head) [r]) ++
        keepNew (names (head ++ keepNew (names head) [r])) rs := by
  simp only [keepNew]
  by_cases h : r.name ∈ names head
  · simp only [if_pos h, List.append_nil]
  · simp only [if_neg h]
    rw [names, names, List.map_append]
    simp [List.append_assoc]

/-! ## The line loop -/

/-- The list after the line loop and the last flush. -/
def finish (s : ParseState) (lines : List CString) : List Node :=
  let s' := lines.foldl parseLine s
  (flush s'.head s'.bufs s'.heap).1

theorem finish_cons (s : ParseState) (line : CString) (lines : List CString) :
    finish s (line :: lines) = finish (parseLine s line) lines := rfl

/-- **Inside a block.**  When the buffers hold the record of a header and the lines
after it so far, the loop completes that record and goes on with the blocks behind. -/
theorem finish_in_block (lines : List CString) :
    ∀ (head : List Node) (heap : Alloc) (header : CString) (body : List CString),
      AllocationsSucceed heap → isHeader header = true →
      finish ⟨head, record ⟨header, body⟩, heap⟩ lines =
        head ++ keepNew (names head)
          (record ⟨header, body ++ lines.takeWhile fun l => !isHeader l⟩ ::
            (blocks lines).map record) := by
  induction lines with
  | nil =>
      intro head heap header body hheap hheader
      -- no line is left: the last record goes to the list
      obtain ⟨heap', hflush, -⟩ := flush_eq head (record ⟨header, body⟩) hheap
        (isHeader_name_ne_nil hheader)
      rw [List.takeWhile_nil, List.append_nil]
      show (flush head (record ⟨header, body⟩) heap).1 = _
      rw [hflush]
      rfl
  | cons line lines ih =>
      intro head heap header body hheap hheader
      have hname : (record ⟨header, body⟩).name ≠ [] := isHeader_name_ne_nil hheader
      rw [finish_cons]
      by_cases hline : isHeader line = true
      · -- the next header: the finished record goes to the list
        obtain ⟨heap', hflush, hheap'⟩ := flush_eq head (record ⟨header, body⟩) hheap hname
        rw [parseLine_header hline, hflush, record_header, ih _ _ line [] hheap' hline,
          List.takeWhile_cons_of_neg (by simp [hline]), List.append_nil, blocks, if_pos hline,
          List.map_cons]
        exact (keepNew_cons head (record ⟨header, body⟩) _).symm
      · -- one more line of this block
        rw [Bool.not_eq_true] at hline
        have hstate : parseLine ⟨head, record ⟨header, body⟩, heap⟩ line =
            ⟨head, record ⟨header, body ++ [line]⟩, heap⟩ := by
          rw [parseLine_not_header hline, if_pos hname, parseSubLine_record]
        rw [hstate, ih head heap header (body ++ [line]) hheap hheader,
          List.takeWhile_cons_of_pos (by simp [hline]), List.append_assoc, List.singleton_append,
          blocks, if_neg (by simp [hline])]

/-- **Before the first header** the buffers stay empty. -/
theorem finish_before_blocks (lines : List CString) (head : List Node) {heap : Alloc}
    (hheap : AllocationsSucceed heap) :
    finish ⟨head, emptyBuffers, heap⟩ lines =
      head ++ keepNew (names head) ((blocks lines).map record) := by
  have hname : emptyBuffers.name = [] := rfl
  induction lines with
  | nil =>
      show (flush head emptyBuffers heap).1 = _
      rw [flush_of_name_eq_nil head heap hname]
      simp [blocks, keepNew]
  | cons line lines ih =>
      rw [finish_cons]
      by_cases hline : isHeader line = true
      · rw [parseLine_header hline, flush_of_name_eq_nil head heap hname, record_header,
          finish_in_block lines head heap line [] hheap hline, List.nil_append, blocks,
          if_pos hline, List.map_cons]
      · rw [Bool.not_eq_true] at hline
        rw [parseLine_not_header hline, if_neg (not_not_intro hname), ih, blocks,
          if_neg (by simp [hline])]

/-- The parser on the lines that `strtok_r` hands out. -/
theorem parseDataBuffer_eq_keepNew (head : List Node) (data : CString) {heap : Alloc}
    (hheap : AllocationsSucceed heap) :
    (parseDataBuffer head (some data) heap).1 =
      head ++ keepNew (names head) ((blocks (strtok data (str "\n"))).map record) := by
  obtain ⟨heap', halloc, hheap'⟩ := hheap.alloc
  rw [parseDataBuffer, halloc]
  exact finish_before_blocks _ head hheap'

/-- The lines of `strtok_r` are the non-empty lines of the text. -/
theorem strtok_newline (data : CString) : strtok data (str "\n") = textLines data := by
  have hdelim : (fun b => (str "\n").contains b) = fun b : UInt8 => b == newline := by
    funext b
    have hstr : str "\n" = [newline] := by decide
    rw [hstr, List.contains_cons]
    simp
  rw [strtok, Scan.tokens_eq_splitOnP, hdelim, textLines, List.splitOn_eq_splitOnP]

/-- **`parse_data_buffer` computes the block-wise definition**, on every text and every
starting list. -/
theorem parse_data_buffer_blockwise (head : List Node) (data : CString) (heap : Alloc)
    (hheap : AllocationsSucceed heap) :
    (parseDataBuffer head (some data) heap).1 =
      head ++ keepNew (names head) ((blocks (textLines data)).map record) := by
  rw [parseDataBuffer_eq_keepNew head data hheap, strtok_newline]

/-- Two blocks of one name, the first with a status line and the second without. -/
theorem parse_data_buffer_blockwise_sample :
    (parseDataBuffer [] (some (str "lo Link encap:L\n UP MTU:1\n\nlo Link encap:L\n")) []).1 =
      [⟨str "lo", [], [], [], [], [], str "UP"⟩] := by
  rw [parse_data_buffer_blockwise [] _ [] (by intro ok hok; cases hok)]
  decide

end Iface
