/-
# When a call keeps the records of a log file

A call on a well-formed log file blanks the old line at the write position, writes its
record there and the new header over the old.  Nothing relates the lengths: a record
longer than the old line runs into the next one, an old line of more than 999 bytes is
not blanked to its end, and a header that grows covers what stands behind it.
`Undamaging` lists what has to be blank, or whole lines, for nothing to be lost;
`overwrite_keeps_records_iff` says that this is exactly the condition.
-/
import RouterTools.LogFormat

namespace CircularLog

open CString Stdio

/-! ## The write position and the bytes overwritten -/

/-- The record of a call with a message of one line. -/
def LogCall.toRecord (call : LogCall) (h : newline ∉ call.message) : Record where
  now := call.now
  level := call.level
  text := call.buffer
  oneLine := fun hmem => h (List.mem_of_mem_take hmem)
  noNul := fun hmem => call.noNul (List.mem_of_mem_take hmem)

/-- The write position for a record of `m` bytes: the cursor, or the first byte behind
the header that is not blank when the record would reach the limit. -/
def writeOffset (file : List UInt8) (n m : ℕ) : ℕ :=
  if maxLogSize ≤ n + m then
    (headerLine n).length + ((file.drop (headerLine n).length).takeWhile isspace).length
  else n

/-- How many bytes at the write position are blanked or written. -/
def overwritten (file : List UInt8) (offset m : ℕ) : ℕ :=
  max m (min (firstLine (file.drop offset)).length 999)

theorem readLine_eq_take (s : List UInt8) (k : ℕ) : readLine k s = (firstLine s).take k := by
  induction s generalizing k with
  | nil => cases k <;> rfl
  | cons b s ih =>
      cases k with
      | zero => rfl
      | succ k =>
          rw [firstLine, List.length_cons, readLine, readLine]
          split
          · rw [List.take_succ_cons, List.take_nil]
          · rw [List.take_succ_cons, ih k, firstLine]

theorem firstLine_append {l : List UInt8} (hl : newline ∉ l) (s : List UInt8) :
    firstLine (l ++ newline :: s) = l ++ [newline] := by
  rw [firstLine, readLine_append hl, List.take_of_length_le]
  simp only [List.length_append, List.length_cons, List.length_nil]
  omega

theorem firstLine_of_not_mem {s : List UInt8} (hs : newline ∉ s) : firstLine s = s := by
  rw [firstLine, readLine_of_not_mem hs, List.take_length]

theorem strlen_of_not_mem {s : List UInt8} (hs : 0 ∉ s) : strlen s = s.length := by
  rw [strlen, List.takeWhile_eq_self_iff.mpr]
  intro b hb
  rw [decide_eq_true_eq]
  rintro rfl
  exact hs hb

/-- **The file with the record written**, header apart. -/
theorem recorded_eq {front R : List UInt8} (hR : 0 ∉ R) (record : CString) :
    recorded (front ++ R) front.length record =
      front ++ (record ++
        (spaces (overwritten (front ++ R) front.length record.length - record.length) ++
          R.drop (overwritten (front ++ R) front.length record.length))) := by
  have herased : strlen (readLine 999 R) = min (firstLine R).length 999 := by
    have hsub : 0 ∉ readLine 999 R := fun hmem => hR ((readLine_isPrefix 999 R).subset hmem)
    rw [strlen_of_not_mem hsub, readLine_eq_take, List.length_take, Nat.min_comm]
  have hfront := recorded_append front R 0 record
  rw [Nat.add_zero] at hfront
  rw [hfront, recorded, List.drop_zero, herased, overwritten, List.drop_left]
  generalize min (firstLine R).length 999 = k
  have hlen : (spaces k).length = k := length_spaces k
  rw [overwrite_zero, overwrite_zero, hlen]
  congr 2
  by_cases h : record.length ≤ k
  · have hdrop : (spaces k).drop record.length = spaces (k - record.length) := List.drop_replicate
    rw [Nat.max_eq_right h, List.drop_append_of_le_length (by omega), hdrop]
  · obtain ⟨j, hj⟩ := Nat.exists_eq_add_of_le (by omega : k ≤ record.length)
    rw [Nat.max_eq_left (by omega), Nat.sub_self, hj]
    nth_rewrite 1 [← hlen]
    rw [List.drop_length_add_append, List.drop_drop]
    rfl

/-! ## The law and its condition -/

/-- What a call should do: the file is well formed afterwards, the new record is complete
just before the new cursor, and every old record is still complete at its place, those in
the old line at the write position apart. -/
structure KeepsRecords (file file' : List UInt8) (offset : ℕ) (r : Record) : Prop where
  newRecord : ∃ n o, WellFormed file' n ∧ RecordAt file' o r ∧ n = o + r.bytes.length
  kept : ∀ o old, RecordAt file o old →
    ¬ (offset ≤ o ∧ o < offset + (firstLine (file.drop offset)).length) → RecordAt file' o old

/-- When a record of `m` bytes written at the offset does no damage to a file with cursor
`n`:

* the header does not shrink by more than one digit, and ends before the write position;
* what a longer header covers is blank;
* what is left of the old line, if that is longer than what is overwritten, makes whole
  lines with the rest of the file;
* what the new record covers behind the old line is blank. -/
structure Undamaging (file : List UInt8) (n offset m : ℕ) : Prop where
  shrinks : (headerLine n).length ≤ (headerLine (offset + m)).length + 1
  behindHeader : (headerLine (offset + m)).length ≤ offset
  headerBlank : Blank ((file.drop (headerLine n).length).take
    ((headerLine (offset + m)).length - (headerLine n).length))
  restBody : Body ((file.drop offset).drop (overwritten file offset m))
  overrunBlank : Blank (((file.drop offset).drop (firstLine (file.drop offset)).length).take
    (overwritten file offset m - (firstLine (file.drop offset)).length))

/-- A byte a body can start with. -/
theorem Body.head {x : UInt8} {s : List UInt8} (h : Body (x :: s)) :
    x = space ∨ x = newline ∨ x = 91 := by
  obtain ⟨p, t, heq, hp, ht⟩ := h.front
  cases p with
  | nil =>
      rcases ht with rfl | ⟨r, rest, rfl⟩
      · cases heq
      · obtain ⟨l, hl⟩ := r.line_eq_cons
        rw [List.nil_append, r.bytes_append, hl] at heq
        exact .inr (.inr (List.cons.inj heq).1)
  | cons y p =>
      have hy := hp y List.mem_cons_self
      rw [(List.cons.inj heq).1]
      rcases hy with hy | hy
      · exact .inl hy
      · exact .inr (.inl hy)

/-! ## What stands between the header and the record -/

section Middle

variable {n k : ℕ} {Q : List UInt8}

/-- A header that is one byte shorter leaves the newline of the old one. -/
theorem drop_headerLine (h : (headerLine n).length = k + 1) :
    (headerLine n ++ Q).drop k = newline :: Q := by
  have hlen : (str "current_position = " ++ decimal n).length = k := by
    rw [headerLine, List.length_append, List.length_singleton] at h
    omega
  rw [headerLine_append, ← hlen, List.drop_left]

/-- What a header of `k` bytes leaves of the old header and the lines behind it. -/
theorem middle_body (hQ : Body Q) (hshrinks : (headerLine n).length ≤ k + 1)
    (hblank : Blank (Q.take (k - (headerLine n).length))) :
    Body ((headerLine n ++ Q).drop k) := by
  by_cases h : (headerLine n).length ≤ k
  · obtain ⟨j, rfl⟩ := Nat.exists_eq_add_of_le h
    rw [Nat.add_sub_cancel_left] at hblank
    rw [List.drop_length_add_append, ← body_blank_iff hblank, List.take_append_drop]
    exact hQ
  · rw [drop_headerLine (by omega), body_newline_iff]
    exact hQ

/-- Behind such a header the old records are at their places. -/
theorem middle_recordAt {header : List UInt8} {i : ℕ} {old : Record} (hheader : EndsLine header)
    (hk : header.length = k) (hshrinks : (headerLine n).length ≤ k + 1)
    (hblank : Blank (Q.take (k - (headerLine n).length))) (hold : RecordAt Q i old) :
    RecordAt (header ++ (headerLine n ++ Q).drop k) ((headerLine n).length + i) old := by
  by_cases h : (headerLine n).length ≤ k
  · obtain ⟨j, rfl⟩ := Nat.exists_eq_add_of_le h
    rw [Nat.add_sub_cancel_left] at hblank
    have hreach : j ≤ i := hold.le_of_blank hblank
    have hat := (hold.drop hreach).append_left hheader.openLine
    have hsum : header.length + (i - j) = (headerLine n).length + i := by omega
    rw [List.drop_length_add_append, ← hsum]
    exact hat
  · have hnl : EndsLine (header ++ [newline]) := .inr ⟨header, rfl⟩
    have hat := hold.append_left hnl.openLine
    have hsum : (header ++ [newline]).length + i = (headerLine n).length + i := by
      rw [List.length_append, List.length_singleton]
      omega
    rw [drop_headerLine (by omega), List.append_cons, ← hsum]
    exact hat

/-- A header that shrinks by two digits or more leaves a digit. -/
theorem not_middle_body (hk : 21 ≤ k) (hshrinks : ¬ (headerLine n).length ≤ k + 1)
    (s : List UInt8) : ¬ Body ((headerLine n ++ Q).drop k ++ s) := by
  have hstr : (str "current_position = ").length = 19 := by decide
  have hlen := length_headerLine n
  have hdigits : (headerLine n ++ Q).drop k = (decimal n).drop (k - 19) ++ newline :: Q := by
    obtain ⟨j, rfl⟩ := Nat.exists_eq_add_of_le (by omega : 19 ≤ k)
    rw [Nat.add_sub_cancel_left, headerLine_append, List.append_assoc, ← hstr,
      List.drop_length_add_append, List.drop_append_of_le_length (by omega)]
  obtain ⟨d, ds, hd⟩ := List.exists_cons_of_ne_nil (l := (decimal n).drop (k - 19)) (by
    rw [Ne, List.drop_eq_nil_iff]
    omega)
  have hmem : d ∈ decimal n :=
    List.mem_of_mem_drop (by rw [hd]; exact List.mem_cons_self)
  intro h
  rw [hdigits, hd] at h
  obtain ⟨i, hi, rfl⟩ := mem_decimal hmem
  have hno : ∀ i < 10, ¬ (UInt8.ofNat (48 + i) = space ∨ UInt8.ofNat (48 + i) = newline ∨
      UInt8.ofNat (48 + i) = 91) := by decide
  exact hno i hi h.head

end Middle

/-! ## One call -/

section Call

variable {file Q R : List UInt8} {n offset : ℕ} {r : Record}

theorem drop_offset (hfile : file = headerLine n ++ Q ++ R)
    (hoffset : offset = (headerLine n ++ Q).length) : file.drop offset = R := by
  rw [hfile, hoffset, List.drop_left]

theorem drop_header (hfile : file = headerLine n ++ Q ++ R) :
    file.drop (headerLine n).length = Q ++ R := by
  rw [hfile, List.append_assoc, List.drop_left]

/-- The file after the call, with a header that ends before the write position. -/
theorem written_shape (hfile : file = headerLine n ++ Q ++ R)
    (hoffset : offset = (headerLine n ++ Q).length) (hR : Body R)
    (hbehind : (headerLine (offset + r.bytes.length)).length ≤ offset) :
    written file offset r.bytes = headerLine (offset + r.bytes.length) ++
      ((headerLine n ++ Q).drop (headerLine (offset + r.bytes.length)).length ++
        (r.bytes ++ (spaces (overwritten file offset r.bytes.length - r.bytes.length) ++
          R.drop (overwritten file offset r.bytes.length)))) := by
  rw [written_eq, overwrite_zero]
  congr 1
  rw [hoffset] at hbehind ⊢
  rw [hfile, recorded_eq hR.nul_not_mem, List.drop_append_of_le_length hbehind]

/-- **Enough**: a call that is undamaging keeps the records. -/
theorem Undamaging.keepsRecords (hfile : file = headerLine n ++ Q ++ R)
    (hoffset : offset = (headerLine n ++ Q).length) (hQ : Body Q) (hR : Body R)
    (h : Undamaging file n offset r.bytes.length) :
    KeepsRecords file (written file offset r.bytes) offset r := by
  have hbehind := h.behindHeader
  have hshape := written_shape hfile hoffset hR hbehind
  have hlenQ : offset = (headerLine n).length + Q.length := by rw [hoffset, List.length_append]
  have hdropR := drop_offset hfile hoffset
  have hdropQ := drop_header hfile
  have hblank := h.headerBlank
  rw [hdropQ, List.take_append_of_le_length (by omega)] at hblank
  have hrest := h.restBody
  have hover := h.overrunBlank
  rw [hdropR] at hrest hover
  have hm : r.bytes.length ≤ overwritten file offset r.bytes.length := Nat.le_max_left _ _
  have hP := middle_body hQ h.shrinks hblank
  have hlenP : ((headerLine n ++ Q).drop (headerLine (offset + r.bytes.length)).length).length =
      offset - (headerLine (offset + r.bytes.length)).length := by
    rw [List.length_drop, ← hoffset]
  have hmiddle : ∀ {i old}, RecordAt Q i old →
      RecordAt (headerLine (offset + r.bytes.length) ++
        (headerLine n ++ Q).drop (headerLine (offset + r.bytes.length)).length)
        ((headerLine n).length + i) old := fun hold =>
    middle_recordAt (endsLine_headerLine _) rfl h.shrinks hblank hold
  generalize (headerLine n ++ Q).drop (headerLine (offset + r.bytes.length)).length = P at *
  generalize overwritten file offset r.bytes.length = e at *
  -- the parts in front of the new record, and behind it
  have hcut : written file offset r.bytes = (headerLine (offset + r.bytes.length) ++ P) ++
      (r.bytes ++ (spaces (e - r.bytes.length) ++ R.drop e)) := by rw [hshape, List.append_assoc]
  have hopen : OpenLine (headerLine (offset + r.bytes.length) ++ P) :=
    (endsLine_headerLine _).append_openLine hP.openLine
  have hfront : (headerLine (offset + r.bytes.length) ++ P).length = offset := by
    rw [List.length_append]
    omega
  constructor
  · refine ⟨offset + r.bytes.length, offset, ⟨⟨_, hshape, ?_⟩, ?_⟩, ?_, rfl⟩
    · rw [hP.append_iff, body_record_iff, body_spaces_iff]
      exact hrest
    · refine ⟨(headerLine (offset + r.bytes.length) ++ P) ++ r.bytes, _,
        hcut.trans (List.append_assoc _ _ _).symm, ?_, .inl (r.endsLine _)⟩
      rw [List.length_append, hfront]
    · have hhere : RecordAt (r.bytes ++ (spaces (e - r.bytes.length) ++ R.drop e)) 0 r :=
        ⟨[], 0, _, .inl rfl, rfl, rfl⟩
      have hat := hhere.append_left hopen
      rwa [hfront, ← hcut] at hat
  · intro o old hold hout
    have hle : (headerLine n).length ≤ o := by
      rw [hfile, List.append_assoc] at hold
      exact hold.headerLine_le
    rw [hdropR] at hout
    by_cases ho : o < offset
    · -- a record in front of the write position
      have hdrop := hold.drop hle
      rw [hdropQ] at hdrop
      have hat := hmiddle (hdrop.of_append hQ.openLine (by omega))
      rw [Nat.add_sub_cancel' hle] at hat
      rw [hcut]
      exact hat.append_right _
    · -- a record behind the old line at the write position
      have hinR := hold.drop (by omega : offset ≤ o)
      rw [hdropR] at hinR
      have hafter := (hinR.drop (by omega : (firstLine R).length ≤ o - offset)).le_of_blank hover
      have hat := (hinR.drop (by omega : e ≤ o - offset)).append_left
        ((r.endsLine (headerLine (offset + r.bytes.length) ++ P)).openLine.append_spaces
          (e - r.bytes.length))
      have hsum : ((headerLine (offset + r.bytes.length) ++ P) ++ r.bytes ++
          spaces (e - r.bytes.length)).length + (o - offset - e) = o := by
        rw [List.length_append, List.length_append, hfront, length_spaces]
        omega
      rw [hsum] at hat
      rw [hcut]
      simpa only [List.append_assoc] using hat

/-- **Needed**: a call that keeps the records is undamaging. -/
theorem KeepsRecords.undamaging (hfile : file = headerLine n ++ Q ++ R)
    (hoffset : offset = (headerLine n ++ Q).length) (hQ : Body Q) (hR : Body R)
    (h : KeepsRecords file (written file offset r.bytes) offset r) :
    Undamaging file n offset r.bytes.length := by
  have hlenQ : offset = (headerLine n).length + Q.length := by rw [hoffset, List.length_append]
  have hdropR := drop_offset hfile hoffset
  have hdropQ := drop_header hfile
  -- the header of the new file is the one that was written
  obtain ⟨n', o, ⟨⟨body, hbody, hbodyOk⟩, -⟩, hat, hn'⟩ := h.newRecord
  have hwritten : written file offset r.bytes = headerLine (offset + r.bytes.length) ++
      (recorded file offset r.bytes).drop (headerLine (offset + r.bytes.length)).length := by
    rw [written_eq, overwrite_zero]
  obtain ⟨rfl, rfl⟩ := headerLine_unique (hwritten.symm.trans hbody)
  obtain rfl : o = offset := by omega
  have hbehind : (headerLine (o + r.bytes.length)).length ≤ o := by
    rw [hwritten] at hat
    exact hat.headerLine_le
  have hshape := written_shape hfile hoffset hR hbehind
  have hX : Body ((headerLine n ++ Q).drop (headerLine (o + r.bytes.length)).length ++
      (r.bytes ++ (spaces (overwritten file o r.bytes.length - r.bytes.length) ++
        R.drop (overwritten file o r.bytes.length)))) := by
    have heq := (headerLine_unique (hwritten.symm.trans hshape)).2
    rwa [heq] at hbodyOk
  have hshrinks : (headerLine n).length ≤ (headerLine (o + r.bytes.length)).length + 1 := by
    by_contra hlt
    exact not_middle_body (length_headerLine_ge _) hlt _ hX
  have hblank : Blank (Q.take ((headerLine (o + r.bytes.length)).length - (headerLine n).length)) := by
    by_contra hnot
    obtain ⟨i, old, hi, hold⟩ := hQ.exists_recordAt hnot
    -- the header would cover this record
    have hfileAt : RecordAt file ((headerLine n).length + i) old := by
      rw [hfile, List.append_assoc]
      exact (hold.append_right R).append_left (endsLine_headerLine n).openLine
    have hkept := h.kept _ old hfileAt (by omega)
    rw [hwritten] at hkept
    have hle := hkept.headerLine_le
    omega
  have hP := middle_body hQ hshrinks hblank
  refine ⟨hshrinks, hbehind, ?_, ?_, ?_⟩
  · rw [hdropQ, List.take_append_of_le_length (by omega)]
    exact hblank
  · rw [hP.append_iff, body_record_iff, body_spaces_iff] at hX
    rw [hdropR]
    exact hX
  · rw [hdropR]
    by_contra hnot
    by_cases hmem : newline ∈ R
    · obtain ⟨l, rest, rfl, hl⟩ := List.eq_append_cons_of_mem hmem
      rw [firstLine_append hl, List.append_cons l newline rest, List.drop_left] at hnot
      obtain ⟨i, old, hi, hold⟩ := ((body_line_iff hl).mp hR).2.exists_recordAt hnot
      -- the new record would cover this record
      have hends : EndsLine (headerLine n ++ Q ++ (l ++ [newline])) :=
        .inr ⟨headerLine n ++ Q ++ l, (List.append_assoc _ _ _).symm⟩
      have hfileAt : RecordAt file (o + (l ++ [newline]).length + i) old := by
        have hat' := hold.append_left hends.openLine
        rw [@List.length_append _ _ (l ++ [newline]), ← hoffset] at hat'
        rw [hfile, List.append_cons l newline rest, ← List.append_assoc]
        exact hat'
      have hkept := h.kept _ old hfileAt (by rw [hdropR, firstLine_append hl]; omega)
      have hm : o + (l ++ [newline]).length + i < o + r.bytes.length := by
        have hmax : overwritten file o r.bytes.length =
            max r.bytes.length (min (l ++ [newline]).length 999) := by
          rw [overwritten, hdropR, firstLine_append hl]
        rw [hmax] at hi
        omega
      have hinside := hkept.drop (by omega : o ≤ o + (l ++ [newline]).length + i)
      have hlenP : (headerLine (o + r.bytes.length) ++
          (headerLine n ++ Q).drop (headerLine (o + r.bytes.length)).length).length = o := by
        rw [List.length_append, List.length_drop, ← hoffset]
        omega
      rw [hshape, ← List.append_assoc] at hinside
      nth_rewrite 1 [← hlenP] at hinside
      rw [List.drop_left] at hinside
      refine not_recordAt_inside r _ ?_ ?_ hinside
      · rw [List.length_append, List.length_singleton]
        omega
      · omega
    · rw [firstLine_of_not_mem hmem, List.drop_length, List.take_nil] at hnot
      exact hnot fun b hb => absurd hb List.not_mem_nil

end Call

/-! ## Well-formed files -/

section File

variable {file : List UInt8} {n : ℕ}

theorem WellFormed.cursor_le (h : WellFormed file n) : n ≤ file.length := by
  obtain ⟨front, rest, rfl, rfl, -⟩ := h.cursor
  rw [List.length_append]
  omega

/-- **The header read** of a well-formed file gives the cursor, and the size up to the
first byte that is not blank. -/
theorem WellFormed.readHeader (h : WellFormed file n) (hsize : file.length < maxLogSize)
    (position : ℤ) :
    readHeader file position = ((n : ℤ),
      (headerLine n).length + ((file.drop (headerLine n).length).takeWhile isspace).length) := by
  have hn : n < 2 ^ 63 := by
    have hle := h.cursor_le
    rw [maxLogSize] at hsize
    omega
  obtain ⟨body, rfl, hbody⟩ := h.shape
  obtain ⟨hsplit, -, hstop⟩ := hbody.dropWhile
  have hhead : (body.dropWhile isspace).head? ≠ some 99 := by
    rcases hstop with hnil | ⟨r, rest, hr⟩
    · rw [hnil]
      decide
    · obtain ⟨l, hl⟩ := r.line_eq_cons
      rw [hr, r.bytes_append, hl, List.cons_append, List.head?_cons]
      decide
  have hlen := congrArg List.length hsplit
  rw [List.length_append] at hlen
  rw [readHeader_headerLine hn hhead, List.drop_left, List.length_append]
  congr 1
  omega

/-- The write position is the start of the file, or stands behind the header between two
bodies. -/
theorem WellFormed.split (h : WellFormed file n) (m : ℕ) :
    writeOffset file n m = 0 ∨ ∃ Q R, file = headerLine n ++ Q ++ R ∧
      writeOffset file n m = (headerLine n ++ Q).length ∧ Body Q ∧ Body R := by
  obtain ⟨body, hfile, hbody⟩ := h.shape
  by_cases hwrap : maxLogSize ≤ n + m
  · obtain ⟨hsplit, hblank, -⟩ := hbody.dropWhile
    have hrest : Body (body.dropWhile isspace) := by
      rw [hsplit] at hbody
      exact (body_blank_iff hblank).mp hbody
    refine .inr ⟨body.takeWhile isspace, body.dropWhile isspace, ?_, ?_, hblank.body, hrest⟩
    · rw [List.append_assoc, ← hsplit, hfile]
    · rw [writeOffset, if_pos hwrap, hfile, List.drop_left, List.length_append]
  · have hoffset : writeOffset file n m = n := by rw [writeOffset, if_neg hwrap]
    obtain ⟨front, rest, hcut, hlen, hline⟩ := h.cursor
    rw [hoffset]
    rcases hline with (rfl | ⟨l, rfl⟩) | rfl
    · exact .inl hlen.symm
    · -- the line before the cursor is the header or a line behind it
      have hnl : l ++ newline :: rest =
          (str "current_position = " ++ decimal n) ++ newline :: body := by
        rw [← headerLine_append, ← hfile, hcut]
        simp
      obtain ⟨Q, hQ, rfl⟩ := first_newline (newline_not_mem_header n) hnl
      rw [← headerLine_append] at hQ
      have hends : EndsLine Q := by
        have hall : EndsLine (headerLine n ++ Q) := .inr ⟨l, hQ.symm⟩
        have hdrop := hall.drop (headerLine n).length
        rwa [List.drop_left] at hdrop
      obtain ⟨hbodyQ, hbodyR⟩ := Body.split hends hbody
      exact .inr ⟨Q, rest, by rw [hfile, List.append_assoc], by rw [← hQ, hlen], hbodyQ, hbodyR⟩
    · rw [List.append_nil] at hcut
      exact .inr ⟨body, [], by rw [hfile, List.append_nil], by rw [← hfile, hcut, hlen], hbody,
        Body.nil⟩

/-- **The records are kept exactly when the call is undamaging.** -/
theorem keepsRecords_iff (h : WellFormed file n) (r : Record) :
    KeepsRecords file (written file (writeOffset file n r.bytes.length) r.bytes)
        (writeOffset file n r.bytes.length) r ↔
      Undamaging file n (writeOffset file n r.bytes.length) r.bytes.length := by
  rcases h.split r.bytes.length with hzero | ⟨Q, R, hfile, hoffset, hQ, hR⟩
  · -- at the start of the file the header covers the record
    rw [hzero]
    have hge := length_headerLine_ge (0 + r.bytes.length)
    constructor
    · intro hkeeps
      obtain ⟨n', o, ⟨⟨body, hbody, -⟩, -⟩, hat, hn'⟩ := hkeeps.newRecord
      rw [written_eq, overwrite_zero] at hat hbody
      obtain ⟨rfl, -⟩ := headerLine_unique hbody
      have hle := hat.headerLine_le
      omega
    · intro hundamaging
      have hle := hundamaging.behindHeader
      omega
  · exact ⟨fun hkeeps => hkeeps.undamaging hfile hoffset hQ hR,
      fun hundamaging => hundamaging.keepsRecords hfile hoffset hQ hR⟩

end File

/-- A call on a well-formed file writes its record at the write position. -/
theorem logPrintfInfo_wellFormed (s : LogState) (call : LogCall) {file : List UInt8} {n : ℕ}
    (henabled : call.level.toNat ≤ s.logRunLevel) (hfile : s.file = some file)
    (hwf : WellFormed file n) (hsize : file.length < maxLogSize) :
    recordOffset s call = writeOffset file n call.record.length ∧
      (logPrintfInfo s call).file =
        some (written file (writeOffset file n call.record.length) call.record) := by
  obtain ⟨offset, hoffset, hrecord, hcall⟩ :=
    logPrintfInfo_some henabled hfile hsize (hwf.readHeader hsize s.currentPosition)
  rw [← writeOffset] at hoffset
  rw [hrecord, hcall, hoffset]
  exact ⟨rfl, rfl⟩

/-- **When the overwrite phase leaves no torn records.**  For every well-formed log file
below the size limit and every enabled call with a message of one line, wrapping or not:
the file is well formed afterwards, with the new record complete before its cursor and
all old records but those of the overwritten line, exactly when the call is
`Undamaging`. -/
theorem overwrite_keeps_records_iff (s : LogState) (call : LogCall) {file : List UInt8} {n : ℕ}
    (henabled : call.level.toNat ≤ s.logRunLevel) (hfile : s.file = some file)
    (hwf : WellFormed file n) (hsize : file.length < maxLogSize)
    (honeLine : newline ∉ call.message) :
    ∃ file', (logPrintfInfo s call).file = some file' ∧
      recordOffset s call = writeOffset file n call.record.length ∧
      (KeepsRecords file file' (writeOffset file n call.record.length) (call.toRecord honeLine) ↔
        Undamaging file n (writeOffset file n call.record.length) call.record.length) := by
  obtain ⟨hoffset, hwritten⟩ := logPrintfInfo_wellFormed s call henabled hfile hwf hsize
  exact ⟨_, hwritten, hoffset, keepsRecords_iff hwf (call.toRecord honeLine)⟩

section Samples

/-- A call of the first of January 2025 with a message of one line. -/
def sampleCall (text : String) (noNul : 0 ∉ str text) : LogCall := noonCall .debug text noNul

/-- A file with a header and the records of two calls without a text, the cursor at the
first. -/
def twoRecords : List UInt8 :=
  headerLine 22 ++ ((sampleCall "" (by decide)).record ++ (sampleCall "" (by decide)).record)

theorem twoRecords_wellFormed : WellFormed twoRecords 22 where
  shape := by
    refine ⟨_, rfl, ?_⟩
    have hrecord : (sampleCall "" (by decide)).record =
        ((sampleCall "" (by decide)).toRecord (by decide)).bytes := rfl
    rw [hrecord, body_record_iff, ← List.append_nil (Record.bytes _), body_record_iff]
    exact Body.nil
  cursor := ⟨headerLine 22, _, rfl, by decide, .inl (endsLine_headerLine 22)⟩

/-- A record as long as the old one takes its place. -/
theorem overwrite_keeps_records_iff_sample :
    ∃ file', (logPrintfInfo ⟨some twoRecords, 0, 3⟩ (sampleCall "" (by decide))).file = some file' ∧
      KeepsRecords twoRecords file' 22 ((sampleCall "" (by decide)).toRecord (by decide)) := by
  obtain ⟨file', hfile', -, hiff⟩ := overwrite_keeps_records_iff
    ⟨some twoRecords, 0, 3⟩ (sampleCall "" (by decide)) (by decide) rfl
    twoRecords_wellFormed (by decide) (by decide)
  have hoffset : writeOffset twoRecords 22 (sampleCall "" (by decide)).record.length = 22 := by
    decide
  rw [hoffset] at hiff
  refine ⟨file', hfile', hiff.mpr ⟨by decide, by decide, by decide, ?_, by decide⟩⟩
  have hrest : (twoRecords.drop 22).drop
      (overwritten twoRecords 22 (sampleCall "" (by decide)).record.length) =
        ((sampleCall "" (by decide)).toRecord (by decide)).bytes ++ [] := by decide
  rw [hrest, body_record_iff]
  exact Body.nil

/-- **A longer record tears the next one.** -/
theorem longer_record_tears :
    ∃ file', (logPrintfInfo ⟨some twoRecords, 0, 3⟩ (sampleCall "hello" (by decide))).file =
        some file' ∧
      ¬ KeepsRecords twoRecords file' 22 ((sampleCall "hello" (by decide)).toRecord (by decide)) := by
  have hoffset : writeOffset twoRecords 22 (sampleCall "hello" (by decide)).record.length = 22 := by
    decide
  obtain ⟨-, hwritten⟩ := logPrintfInfo_wellFormed
    ⟨some twoRecords, 0, 3⟩ (sampleCall "hello" (by decide)) (by decide) rfl
    twoRecords_wellFormed (by decide)
  rw [hoffset] at hwritten
  refine ⟨_, hwritten, fun hkeeps => ?_⟩
  have hiff := keepsRecords_iff twoRecords_wellFormed
    ((sampleCall "hello" (by decide)).toRecord (by decide))
  have hbytes : ((sampleCall "hello" (by decide)).toRecord (by decide)).bytes =
      (sampleCall "hello" (by decide)).record := rfl
  rw [hbytes, hoffset] at hiff
  exact absurd (hiff.mp hkeeps).overrunBlank (by decide)

end Samples

end CircularLog
