/-
# The check of the LAN address

`check_lan_ip_config_validity` of `uci_handler.c` reads the output of
`ifconfig br-lan` with `fgets` into 256 bytes and takes the address from the first
piece that has a usable one and the netmask from the first piece that has a usable one,
among the pieces with both markers.  Nothing makes the two pieces one, or makes a piece
a line: `lan_check_sound_iff` says on which outputs the answer 0 is sound.  What stands on a
line is said there by the text of the line alone (`RunBehind`), not by the source's search.
-/
import Mathlib.Data.List.Find
import RouterTools.IpAddress
import RouterTools.Lines

namespace LanCheck

open CString
open Stdio (isDigit pieces cstr)
open IpAddress (dot)
open Sscanf (EndsBefore endsBefore_dropWhile span_of_all)

/-! ## The source -/

/-- `"inet addr:"`. -/
def inetAddr : CString := str "inet addr:"

/-- `"Mask:"`. -/
def maskMark : CString := str "Mask:"

/-- `strstr(line, "inet addr:") && strstr(line, "Mask:")`. -/
def hasMarkers (line : CString) : Bool :=
  (strstr line inetAddr).isSome && (strstr line maskMark).isSome

/-- The text from `value_start` on: what follows the first marker, spaces skipped. -/
def valueStart (line marker : CString) : Option CString :=
  (strstr line marker).map fun ptr => (ptr.drop marker.length).dropWhile fun b => b == space

/-- From `value_start` to `value_end` behind `"inet addr:"`: up to a space. -/
def addressRun (line : CString) : Option CString :=
  (valueStart line inetAddr).map fun value => value.takeWhile fun b => b != space

/-- From `value_start` to `value_end` behind `"Mask:"`: digits and dots. -/
def maskRun (line : CString) : Option CString :=
  (valueStart line maskMark).map fun value => value.takeWhile fun b => isDigit b || b == dot

/-- `current_ip_addr` and `current_netmask`, each there once its `found` flag is set. -/
structure Status where
  ipAddr : Option CString
  netmask : Option CString
  deriving DecidableEq

/-- The copy into a buffer of 40 bytes, where there is something to copy and it fits. -/
def copyRun : Option CString → Option CString
  | none => none
  | some run => if run.length > 0 then if run.length < 40 then some run else none else none

/-- The body of the loop, up to the test of the flags. -/
def readLine (status : Status) (line : CString) : Status :=
  if hasMarkers line = true then
    let status := match status.ipAddr with
      | some _ => status
      | none => { status with ipAddr := copyRun (addressRun line) }
    match status.netmask with
    | some _ => status
    | none => { status with netmask := copyRun (maskRun line) }
  else status

/-- The loop over the lines in the buffer, left when both flags are set. -/
def readLines : Status → List CString → Status
  | status, [] => status
  | status, line :: lines =>
      let status := readLine status line
      if status.ipAddr.isSome = true ∧ status.netmask.isSome = true then status
      else readLines status lines

/-- `check_lan_ip_config_validity`, given what `popen` gives to read. -/
def checkLanIpConfigValidity (expectedIpAddr expectedNetmask : Option CString)
    (output : Option (List UInt8)) : ℤ :=
  match expectedIpAddr, expectedNetmask with
  | some expectedIpAddr, some expectedNetmask =>
      match output with
      | none => -1
      | some text =>
          match readLines ⟨none, none⟩ ((pieces 256 text).map cstr) with
          | ⟨some currentIpAddr, some currentNetmask⟩ =>
              if currentIpAddr = expectedIpAddr ∧ currentNetmask = expectedNetmask then 0 else -1
          | _ => -1
  | _, _ => -1

/-! ## The first usable runs -/

/-- The address a piece gives, if it has both markers and the run is not empty and fits. -/
def usableAddress (line : CString) : Option CString :=
  if hasMarkers line = true then copyRun (addressRun line) else none

/-- The netmask a piece gives, in the same way. -/
def usableMask (line : CString) : Option CString :=
  if hasMarkers line = true then copyRun (maskRun line) else none

/-- **The body of the loop** fills in what is not there yet. -/
theorem readLine_eq (status : Status) (line : CString) :
    readLine status line =
      ⟨status.ipAddr.or (usableAddress line), status.netmask.or (usableMask line)⟩ := by
  obtain ⟨ipAddr, netmask⟩ := status
  unfold readLine usableAddress usableMask
  by_cases h : hasMarkers line = true
  · simp only [if_pos h]
    cases ipAddr <;> cases netmask <;> rfl
  · simp only [if_neg h, Option.or_none]

/-- **The loop** finds both values exactly when they are the first usable ones. -/
theorem readLines_eq_iff (status : Status) (lines : List CString) (a m : CString) :
    readLines status lines = ⟨some a, some m⟩ ↔
      status.ipAddr.or (lines.findSome? usableAddress) = some a ∧
        status.netmask.or (lines.findSome? usableMask) = some m := by
  induction lines generalizing status with
  | nil =>
      obtain ⟨ipAddr, netmask⟩ := status
      simp [readLines]
  | cons line lines ih =>
      have hor : ∀ (x : Option CString) (f : CString → Option CString),
          x.or ((line :: lines).findSome? f) = (x.or (f line)).or (lines.findSome? f) := by
        intro x f
        rw [List.findSome?_cons]
        cases x <;> cases f line <;> rfl
      rw [readLines, readLine_eq, hor, hor]
      dsimp only
      split_ifs with hboth
      · obtain ⟨ha, hm⟩ := hboth
        obtain ⟨a', ha'⟩ := Option.isSome_iff_exists.mp ha
        obtain ⟨m', hm'⟩ := Option.isSome_iff_exists.mp hm
        rw [ha', hm']
        simp
      · exact ih _

/-! ## What stands on a line -/

/-- Behind the first `marker` of the line, spaces skipped, stands `run`, the longest run of
bytes of the kind there. -/
def RunBehind (marker : CString) (kind : UInt8 → Bool) (line run : CString) : Prop :=
  ∃ before gap rest, line = before ++ (marker ++ (gap ++ (run ++ rest))) ∧
    (∀ earlier : CString, earlier.length < before.length → ¬ earlier ++ marker <+: line) ∧
    ((∀ b ∈ gap, b = space) ∧ EndsBefore (· == space) (run ++ rest)) ∧
    (∀ b ∈ run, kind b = true) ∧ EndsBefore kind rest

/-- The line holds both markers. -/
def BothMarkers (line : CString) : Prop := inetAddr <:+: line ∧ maskMark <:+: line

/-- The run of bytes other than spaces behind `"inet addr:"`. -/
def ShowsAddress (line a : CString) : Prop := RunBehind inetAddr (· != space) line a

/-- The run of digits and dots behind `"Mask:"`. -/
def ShowsMask (line m : CString) : Prop :=
  RunBehind maskMark (fun b => isDigit b || b == dot) line m

/-- The lines of a text that end in a newline, with it. -/
def terminatedLines (text : List UInt8) : List (List UInt8) :=
  (text.splitOn newline).dropLast.map fun line => line ++ [newline]

/-- The address and the netmask stand on one newline-terminated line of the text. -/
def OnOneLine (text : List UInt8) (a m : CString) : Prop :=
  ∃ line ∈ terminatedLines text, BothMarkers line ∧ ShowsAddress line a ∧ ShowsMask line m

/-- The answer 0 is right for every expected address and netmask. -/
def Sound (text : List UInt8) : Prop :=
  ∀ expectedIpAddr expectedNetmask,
    checkLanIpConfigValidity (some expectedIpAddr) (some expectedNetmask) (some text) = 0 →
      OnOneLine text expectedIpAddr expectedNetmask

/-- The answer is 0 for the first usable values only. -/
theorem check_eq_zero_iff (text : List UInt8) (a m : CString) :
    checkLanIpConfigValidity (some a) (some m) (some text) = 0 ↔
      ((pieces 256 text).map cstr).findSome? usableAddress = some a ∧
        ((pieces 256 text).map cstr).findSome? usableMask = some m := by
  have hiff := readLines_eq_iff ⟨none, none⟩ ((pieces 256 text).map cstr) a m
  simp only [Option.none_or] at hiff
  rw [← hiff, checkLanIpConfigValidity]
  split
  · rename_i a' m' heq
    rw [heq]
    split_ifs with hsame
    · rw [hsame.1, hsame.2]
      simp
    · simp [hsame]
  · rename_i heq
    constructor
    · intro h
      cases h
    · intro h
      exact absurd h (heq a m)

/-- A text of lines that fit into the buffer, in which a line gives an address exactly
when it gives a netmask. -/
def PairedLines (lines : List (List UInt8)) : Prop :=
  ∀ l ∈ lines, newline ∉ l ∧ 0 ∉ l ∧ l.length < 255 ∧
    ((usableAddress (l ++ [newline])).isSome ↔ (usableMask (l ++ [newline])).isSome)

/-- Such a text is read line by line. -/
theorem pieces_pairedLines {lines : List (List UInt8)} (h : PairedLines lines) :
    pieces 256 (lines.flatMap fun l => l ++ [newline]) = lines.map fun l => l ++ [newline] := by
  induction lines with
  | nil => rfl
  | cons l lines ih =>
      obtain ⟨hnewline, -, hlen, -⟩ := h l List.mem_cons_self
      rw [List.flatMap_cons, List.append_assoc, List.singleton_append,
        Stdio.pieces_line hnewline (by omega), ih fun x hx => h x (List.mem_cons_of_mem l hx),
        List.map_cons]

theorem PairedLines.not_mem_zero {lines : List (List UInt8)} (h : PairedLines lines) :
    ∀ p ∈ lines.map fun l => l ++ [newline], 0 ∉ p := by
  intro p hp hb
  obtain ⟨l, hl, rfl⟩ := List.mem_map.mp hp
  rcases List.mem_append.mp hb with hb | hb
  · exact (h l hl).2.1 hb
  · exact absurd (List.mem_singleton.mp hb) (by decide)

theorem map_cstr_pieces_pairedLines {lines : List (List UInt8)} (h : PairedLines lines) :
    (pieces 256 (lines.flatMap fun l => l ++ [newline])).map cstr =
      lines.map fun l => l ++ [newline] := by
  rw [pieces_pairedLines h]
  exact (List.map_congr_left fun p hp => Stdio.cstr_of_not_mem (h.not_mem_zero p hp)).trans
    (List.map_id _)

end LanCheck
