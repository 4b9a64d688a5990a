/-
# The record of a log message

`log_message` of `log.c` prints a header and the content into a buffer of 2048 bytes, sees
to it that the text ends in a newline, and passes it to `fputs`.  A text that fits is left
alone if it ends in a newline; a longer one has a newline put behind its first 2046 bytes.
The two cases are told apart at 2046 bytes, where a text with its own newline still fits:
`log_record_exact_iff` says that this is the only length with a blank line.
-/
import Mathlib.Data.Int.Basic
import RouterTools.Lines

namespace Logger

open CString
open Stdio (overwrite cstr)

/-! ## The source -/

/-- `MAX_LOG_LINE_SIZE`. -/
def maxLogLineSize : ℕ := 2048

/-- `INT_MAX`. -/
def intMax : ℕ := 2147483647

/-- `log_level_names`. -/
def logLevelNames : List CString := [str "NONE", str "ERROR", str "WARN", str "DEBUG"]

/-- A call of `log_message` after its format has been expanded: the level, `time_str` as
`strftime` leaves it, and the content. -/
structure Message where
  level : ℤ
  time : CString
  content : CString
  time_length : time.length = 19
  time_nul : 0 ∉ time
  content_nul : 0 ∉ content

/-- `"[time] LEVEL: "`. -/
def Message.header (m : Message) : CString :=
  str "[" ++ m.time ++ str "] " ++ logLevelNames.getD m.level.toNat [] ++ str ": "

/-- `snprintf(buffer + offset, size, ...)`: the buffer after it, and the length of the whole
text, or -1 if an `int` cannot hold it. -/
def snprintf (buffer : List UInt8) (offset size : ℕ) (text : CString) : List UInt8 × ℤ :=
  (overwrite buffer offset (text.take (size - 1) ++ [0]),
    if text.length ≤ intMax then (text.length : ℤ) else -1)

/-- A sum of type `int` as a `size_t`; the sum wraps. -/
def intToSize (sum : ℤ) : ℕ := (((sum + 2 ^ 31) % 2 ^ 32 - 2 ^ 31) % 2 ^ 64).toNat

/-- The newline at the end of the text, or behind its first 2046 bytes. -/
def ensureNewline (buffer : List UInt8) (totalLen : ℕ) : List UInt8 :=
  if totalLen < maxLogLineSize - 2 then
    if buffer.getD (totalLen - 1) 0 ≠ newline then overwrite buffer totalLen [newline, 0]
    else buffer
  else overwrite buffer (maxLogLineSize - 2) [newline, 0]

/-- The text `log_message` passes to `fputs`, none where it returns before.  `stack` is what
the buffer holds at first. -/
def logRecord (stack : Vector UInt8 2048) (logLevel : UInt8) (m : Message) :
    Option (List UInt8) :=
  if m.level ≤ 0 ∨ m.level > 3 ∨ m.level > logLevel.toNat then none
  else
    let (buffer, headerLen) := snprintf stack.toList 0 maxLogLineSize m.header
    if headerLen < 0 ∨ headerLen ≥ maxLogLineSize then none
    else
      let (buffer, contentLen) :=
        snprintf buffer headerLen.toNat (maxLogLineSize - headerLen.toNat) m.content
      if contentLen < 0 then none
      else some (cstr (ensureNewline buffer (intToSize (headerLen + contentLen))))

/-! ## The buffer -/

/-- The message is let through by its level. -/
def Message.Enabled (m : Message) (logLevel : UInt8) : Prop :=
  0 < m.level ∧ m.level ≤ 3 ∧ m.level ≤ logLevel.toNat

instance (m : Message) (logLevel : UInt8) : Decidable (m.Enabled logLevel) :=
  inferInstanceAs (Decidable (_ ∧ _ ∧ _))

/-- The text of the message. -/
def Message.text (m : Message) : CString := m.header ++ m.content

/-- Writing behind the front part of a buffer. -/
theorem overwrite_front (front rest bytes : List UInt8) :
    overwrite (front ++ rest) front.length bytes = front ++ (bytes ++ rest.drop bytes.length) := by
  have happend := Stdio.overwrite_append front rest 0 bytes
  rw [Nat.add_zero] at happend
  rw [happend, Stdio.overwrite_zero]

/-- A newline and a NUL behind a text without NUL. -/
theorem cstr_overwrite_newline {front : List UInt8} (hnul : 0 ∉ front) (rest : List UInt8) :
    cstr (overwrite (front ++ rest) front.length [newline, 0]) = front ++ [newline] := by
  have hnul' : 0 ∉ front ++ [newline] := by
    rw [List.mem_append, not_or]
    exact ⟨hnul, by decide⟩
  have hsplit : overwrite (front ++ rest) front.length [newline, 0] =
      (front ++ [newline]) ++ 0 :: rest.drop 2 := by
    rw [overwrite_front]
    simp
  rw [hsplit, Stdio.cstr_append_zero hnul']

/-- **The two prints** leave as much of the text as there is room for. -/
theorem snprintf_snprintf (stack : List UInt8) {header : CString} (hheader : header.length ≤ 2047)
    (content : CString) :
    ∃ rest, (snprintf (snprintf stack 0 2048 header).1 header.length (2048 - header.length)
      content).1 = (header ++ content).take 2047 ++ 0 :: rest := by
  have hfirst : (snprintf stack 0 2048 header).1 =
      header ++ 0 :: stack.drop (header.length + 1) := by
    show overwrite stack 0 (header.take 2047 ++ [0]) = _
    rw [List.take_of_length_le hheader, Stdio.overwrite_zero, List.length_append,
      List.length_singleton, List.append_assoc, List.singleton_append]
  have htake : (header ++ content).take 2047 = header ++ content.take (2047 - header.length) := by
    rw [List.take_append, List.take_of_length_le hheader]
  have hsize : 2048 - header.length - 1 = 2047 - header.length := by omega
  rw [hfirst, htake, snprintf, hsize]
  dsimp only
  rw [overwrite_front, List.append_assoc]
  exact ⟨_, (List.append_assoc header _ _).symm⟩

/-- The sum of the two lengths: what does not fit into an `int` is a large `size_t`. -/
theorem intToSize_add {h c : ℕ} (hh : h ≤ 2047) (hc : c ≤ intMax) :
    intToSize (h + c) = h + c ∨ 2046 ≤ h + c ∧ 2046 ≤ intToSize (h + c) := by
  unfold intMax at hc
  unfold intToSize
  omega

/-- The header is short. -/
theorem Message.length_header_le (m : Message) : m.header.length ≤ 29 := by
  have hname : ∀ n, (logLevelNames.getD n []).length ≤ 5 := by
    intro n
    rcases n with _ | _ | _ | _ | n
    all_goals first | decide | exact Nat.zero_le _
  have hlevel := hname m.level.toNat
  have h1 : (str "[").length = 1 := by decide
  have h2 : (str "] ").length = 2 := by decide
  have h3 : (str ": ").length = 2 := by decide
  simp only [Message.header, List.length_append, m.time_length, h1, h2, h3]
  omega

theorem Message.nul_not_mem_header (m : Message) : 0 ∉ m.header := by
  have hname : ∀ n, 0 ∉ logLevelNames.getD n [] := by
    intro n
    rcases n with _ | _ | _ | _ | n
    all_goals first | decide | exact List.not_mem_nil
  have h1 : 0 ∉ str "[" := by decide
  have h2 : 0 ∉ str "] " := by decide
  have h3 : 0 ∉ str ": " := by decide
  simp only [Message.header, List.mem_append, not_or]
  exact ⟨⟨⟨⟨h1, m.time_nul⟩, h2⟩, hname _⟩, h3⟩

theorem Message.nul_not_mem_text (m : Message) : 0 ∉ m.text := by
  rw [Message.text, List.mem_append, not_or]
  exact ⟨m.nul_not_mem_header, m.content_nul⟩

/-- The text ends in a newline exactly when the content does. -/
theorem Message.getLast_text (m : Message) :
    m.text.getLast? = some newline ↔ m.content.getLast? = some newline := by
  have hspace : m.header.getLast? = some space := by
    rw [Message.header, List.getLast?_append]
    rfl
  rw [Message.text, List.getLast?_append, hspace]
  cases m.content.getLast? with
  | none => exact iff_of_false (by decide) (by simp)
  | some b => rfl

/-! ## The record -/

/-- The text without its trailing newline, if it has one. -/
def dropNewline (s : CString) : CString := if s.getLast? = some newline then s.dropLast else s

/-- What should be written for a text: its first 2046 bytes and a newline. -/
def record (text : CString) : List UInt8 := (dropNewline text).take 2046 ++ [newline]

/-- A text of 2046 bytes with a newline of its own has one newline too many. -/
theorem append_newline_ne_record {text : CString} (hlen : text.length = 2046)
    (hlast : text.getLast? = some newline) : text ++ [newline] ≠ record text := by
  intro h
  have hlen' := congrArg List.length h
  rw [record, dropNewline, if_pos hlast] at hlen'
  simp only [List.length_append, List.length_take, List.length_dropLast, hlen] at hlen'
  omega

/-- A text that the buffer has all of is ended where it ends. -/
theorem cstr_ensureNewline_short {text : CString} (hne : text ≠ []) (hnul : 0 ∉ text)
    (hlen : text.length < 2046) (rest : List UInt8) :
    cstr (ensureNewline (text.take 2047 ++ 0 :: rest) text.length) = record text := by
  obtain ⟨front, b, rfl⟩ : ∃ front b, text = front ++ [b] :=
    ⟨text.dropLast, text.getLast hne, (List.dropLast_concat_getLast hne).symm⟩
  have hfront : (front ++ [b]).length = front.length + 1 := by simp
  rw [hfront] at hlen
  have htake : (front ++ [b]).take 2047 = front ++ [b] := List.take_of_length_le (by omega)
  have hlast : ((front ++ [b]) ++ 0 :: rest).getD (front.length + 1 - 1) 0 = b := by
    rw [Nat.add_sub_cancel, List.append_assoc, List.getD_eq_getElem?_getD,
      List.getElem?_append_right le_rfl, Nat.sub_self]
    rfl
  rw [htake, ensureNewline, hfront, if_pos (by unfold maxLogLineSize; omega), hlast]
  by_cases hb : b = newline
  · rw [if_neg (not_not.mpr hb), Stdio.cstr_append_zero hnul, record, dropNewline,
      if_pos (by simp [hb]), List.dropLast_concat, List.take_of_length_le (by omega), hb]
  · rw [if_pos hb, ← hfront, cstr_overwrite_newline hnul, record, dropNewline,
      if_neg (by simp [hb]), List.take_of_length_le (by omega)]

/-- In a longer text the newline goes behind the first 2046 bytes. -/
theorem cstr_ensureNewline_long {text : CString} (hnul : 0 ∉ text) (hlen : 2046 ≤ text.length)
    (rest : List UInt8) :
    cstr (ensureNewline (text.take 2047 ++ 0 :: rest) text.length) =
      text.take 2046 ++ [newline] := by
  have hsplit : text.take 2047 = text.take 2046 ++ (text.drop 2046).take 1 := by
    rw [← List.take_add]
  have hfront : (text.take 2046).length = 2046 := by
    rw [List.length_take]
    omega
  have hnul' : 0 ∉ text.take 2046 := fun h => hnul (List.mem_of_mem_take h)
  have hwritten := cstr_overwrite_newline hnul' ((text.drop 2046).take 1 ++ 0 :: rest)
  rw [hfront] at hwritten
  rw [ensureNewline, if_neg (by unfold maxLogLineSize; omega), hsplit, List.append_assoc]
  show cstr (overwrite _ 2046 [newline, 0]) = _
  rw [hwritten]

/-- A newline is seen to, whatever the buffer holds behind the text. -/
theorem cstr_ensureNewline {text : CString} (hne : text ≠ []) (hnul : 0 ∉ text)
    (rest : List UInt8) :
    cstr (ensureNewline (text.take 2047 ++ 0 :: rest) text.length) =
      if text.length = 2046 ∧ text.getLast? = some newline then text ++ [newline]
      else record text := by
  by_cases hlen : text.length < 2046
  · rw [cstr_ensureNewline_short hne hnul hlen, if_neg]
    rintro ⟨h, -⟩
    omega
  · rw [cstr_ensureNewline_long hnul (by omega), record, dropNewline]
    split_ifs with hblank hnewline
    · rw [List.take_of_length_le (by omega)]
    · -- without its newline the text still reaches the end of the buffer
      have hmin : min 2046 (text.length - 1) = 2046 := by
        have hne' : text.length ≠ 2046 := fun h => hblank ⟨h, hnewline⟩
        omega
      rw [List.dropLast_eq_take, List.take_take, hmin]
    · rfl

/-- **The record of an enabled message**: what it should be, unless the content is too long to
be printed, or the text is 2046 bytes long and ends in a newline. -/
theorem logRecord_eq (stack : Vector UInt8 2048) {logLevel : UInt8} {m : Message}
    (henabled : m.Enabled logLevel) :
    logRecord stack logLevel m =
      if m.content.length ≤ intMax then
        some (if m.text.length = 2046 ∧ m.text.getLast? = some newline then m.text ++ [newline]
          else record m.text)
      else none := by
  obtain ⟨hpos, hdebug, hlevel⟩ := henabled
  -- the header always fits, so that the content is printed behind it
  have hcheck : ¬ (m.level ≤ 0 ∨ m.level > 3 ∨ m.level > logLevel.toNat) := by omega
  have hheader : m.header.length ≤ 2047 := le_trans m.length_header_le (by omega)
  obtain ⟨rest, hprint⟩ := snprintf_snprintf stack.toList hheader m.content
  have hfirst : snprintf stack.toList 0 maxLogLineSize m.header =
      ((snprintf stack.toList 0 2048 m.header).1, (m.header.length : ℤ)) :=
    Prod.ext rfl (if_pos (by unfold intMax; omega))
  have hfits : ¬ ((m.header.length : ℤ) < 0 ∨ (m.header.length : ℤ) ≥ maxLogLineSize) := by
    unfold maxLogLineSize
    omega
  have hsecond : snprintf (snprintf stack.toList 0 2048 m.header).1 m.header.length
      (maxLogLineSize - m.header.length) m.content =
      (m.text.take 2047 ++ 0 :: rest, if m.content.length ≤ intMax then (m.content.length : ℤ) else -1) :=
    Prod.ext hprint rfl
  unfold logRecord
  rw [if_neg hcheck, hfirst]
  dsimp only
  rw [if_neg hfits, Int.toNat_natCast, hsecond]
  dsimp only
  by_cases hcontent : m.content.length ≤ intMax
  · have hlength : m.text.length = m.header.length + m.content.length := List.length_append
    have hne : m.text ≠ [] := List.append_ne_nil_of_left_ne_nil (by simp [Message.header, str]) _
    rw [if_pos hcontent, if_pos hcontent, if_neg (by omega),
      ← cstr_ensureNewline hne m.nul_not_mem_text rest, hlength]
    rcases intToSize_add hheader hcontent with hsum | ⟨hlong, hsum⟩
    · rw [hsum]
    · -- both lengths put the newline behind the first 2046 bytes
      rw [ensureNewline, ensureNewline, if_neg (by unfold maxLogLineSize; omega),
        if_neg (by unfold maxLogLineSize; omega)]
  · rw [if_neg hcontent, if_neg hcontent, if_pos (by omega)]

/-- An enabled message that can be printed has a record, and it is not empty. -/
theorem logRecord_enabled (stack : Vector UInt8 2048) {logLevel : UInt8} {m : Message}
    (henabled : m.Enabled logLevel) :
    (m.content.length ≤ intMax ∧ ∃ logBuffer, logRecord stack logLevel m = some logBuffer ∧
        logBuffer ≠ []) ∨
      ¬ m.content.length ≤ intMax ∧ logRecord stack logLevel m = none := by
  rw [logRecord_eq stack henabled]
  by_cases hcontent : m.content.length ≤ intMax
  · rw [if_pos hcontent]
    refine Or.inl ⟨hcontent, _, rfl, ?_⟩
    split_ifs
    · exact List.append_ne_nil_of_right_ne_nil _ (List.cons_ne_nil _ _)
    · exact List.append_ne_nil_of_right_ne_nil _ (List.cons_ne_nil _ _)
  · exact Or.inr ⟨hcontent, if_neg hcontent⟩

/-- **When the record is what it should be**: whenever the content can be printed, and the text
is not one of 2046 bytes with a newline of its own. -/
theorem log_record_exact_iff (stack : Vector UInt8 2048) {logLevel : UInt8} {m : Message}
    (henabled : m.Enabled logLevel) :
    logRecord stack logLevel m = some (record (m.header ++ m.content)) ↔
      m.content.length ≤ intMax ∧
        ¬ (m.header.length + m.content.length = 2046 ∧ m.content.getLast? = some newline) := by
  have hlength : m.text.length = m.header.length + m.content.length := List.length_append
  rw [logRecord_eq stack henabled, ← hlength, ← m.getLast_text]
  split_ifs with hcontent hblank
  · refine iff_of_false (fun h => ?_) fun h => h.2 hblank
    exact append_newline_ne_record hblank.1 hblank.2 (Option.some.inj h)
  · exact iff_of_true rfl ⟨hcontent, hblank⟩
  · exact iff_of_false (fun h => nomatch h) fun h => hcontent h.1

/-- An error message. -/
def errorMessage (content : CString) (content_nul : 0 ∉ content) : Message where
  level := 1
  time := str "2024-01-31 12:00:00"
  content := content
  time_length := by decide
  time_nul := by decide
  content_nul := content_nul

/-- A message with a newline of its own. -/
theorem log_record_exact_disk_full :
    logRecord (Vector.replicate 2048 0) 3 (errorMessage (str "disk full\n") (by decide)) =
      some (record (str "[2024-01-31 12:00:00] ERROR: disk full\n")) :=
  (log_record_exact_iff _ (by decide)).mpr ⟨by decide, by decide⟩

/-- A message whose text has 2046 bytes and ends in a newline. -/
def fullMessage : Message := errorMessage (List.replicate 2016 97 ++ [newline]) (by decide +kernel)

/-- It is followed by a blank line. -/
theorem blank_line_behind_2046_bytes :
    ¬ ∀ stack logLevel m, m.Enabled logLevel →
      logRecord stack logLevel m = some (record (m.header ++ m.content)) := by
  intro h
  have hrecord := h (Vector.replicate 2048 0) 3 fullMessage (by decide)
  have hprinted : fullMessage.content.length ≤ intMax := by decide +kernel
  have hblank : fullMessage.text.length = 2046 ∧ fullMessage.text.getLast? = some newline := by
    decide +kernel
  rw [logRecord_eq _ (by decide), if_pos hprinted, if_pos hblank] at hrecord
  exact append_newline_ne_record hblank.1 hblank.2 (Option.some.inj hrecord)

end Logger
