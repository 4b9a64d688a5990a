/-
# The field extractors of `parser.c`

Each function reads a line of `ifconfig` output and overwrites a caller's buffer of the
given size; `old` is what the buffer holds before the call, which stays when the size
is 0.  The texts are in the C locale, and a local copy of a line is cut at 255 bytes.
-/
import RouterTools.CString

namespace IfaceParser

open CString

/-- `char line_copy[256]`, filled by `strncpy`. -/
def lineCopy (line : CString) : CString := copyTo 256 line

/-- A pointer moved over the white space in front of it. -/
def skipSpaces (s : CString) : CString := s.dropWhile isspace

/-- The text up to the next white space. -/
def word (s : CString) : CString := s.takeWhile fun b => !isspace b

/-- The word after the first occurrence of `marker`, empty if there is none: the common
body of `parser_mac` and `parser_ipv6`. -/
def wordAfter (marker line : CString) (size : ℕ) (old : CString) : CString :=
  if size = 0 then old
  else match strstr line marker with
    | none => []
    | some ptr => copyTo size (word (skipSpaces (ptr.drop marker.length)))

/-- `parser_name`. -/
def parserName (line : CString) (size : ℕ) (old : CString) : CString :=
  if size = 0 then old
  else match strtok (lineCopy line) (str " \t") with
    | [] => []
    | token :: _ => copyTo size token

/-- `parser_mac`. -/
def parserMac (line : CString) (size : ℕ) (old : CString) : CString :=
  wordAfter (str "HWaddr") line size old

/-- The three buffers of `parser_ipv4`. -/
structure Ipv4 where
  ipv4 : CString
  bcast : CString
  mask : CString
  deriving DecidableEq, Repr

/-- The buffer sizes of `parser_ipv4`. -/
structure Ipv4Sizes where
  ipv4 : ℕ
  bcast : ℕ
  mask : ℕ

/-- `if (size > 0) buffer[0] = '\0'`. -/
def clear (size : ℕ) (old : CString) : CString := if 0 < size then [] else old

/-- One further token of the line in `parser_ipv4`. -/
def ipv4Token (sizes : Ipv4Sizes) (bufs : Ipv4) (token : CString) : Ipv4 :=
  if str "Bcast:" <+: token ∧ 0 < sizes.bcast then
    { bufs with bcast := copyTo sizes.bcast (token.drop 6) }
  else if str "Mask:" <+: token ∧ 0 < sizes.mask then
    { bufs with mask := copyTo sizes.mask (token.drop 5) }
  else bufs

/-- `parser_ipv4`. -/
def parserIpv4 (line : CString) (sizes : Ipv4Sizes) (old : Ipv4) : Ipv4 :=
  let bufs : Ipv4 :=
    ⟨clear sizes.ipv4 old.ipv4, clear sizes.bcast old.bcast, clear sizes.mask old.mask⟩
  match strstr line (str "inet addr:") with
  | none => bufs
  | some ptr =>
      match strtok (lineCopy (ptr.drop (str "inet addr:").length)) (str " \t\n") with
      | [] => bufs
      | token :: tokens =>
          let bufs :=
            if 0 < sizes.ipv4 then { bufs with ipv4 := copyTo sizes.ipv4 token } else bufs
          tokens.foldl (ipv4Token sizes) bufs

/-- `parser_ipv6`. -/
def parserIpv6 (line : CString) (size : ℕ) (old : CString) : CString :=
  wordAfter (str "inet6 addr:") line size old

/-- `parser_status`. -/
def parserStatus (line : CString) (size : ℕ) (old : CString) : CString :=
  if size = 0 then old
  else copyTo size
    (if (strstr line (str "MTU:")).isSome ∧ (strstr line (str "UP")).isSome then str "UP"
     else str "DOWN")

/-! ## What was in the buffers does not matter -/

/-- With room in its buffer an extractor computes from the line alone. -/
theorem wordAfter_old {size : ℕ} (h : 0 < size) (marker line old old' : CString) :
    wordAfter marker line size old = wordAfter marker line size old' := by
  rw [wordAfter, wordAfter, if_neg (by omega), if_neg (by omega)]

theorem parserIpv6_old {size : ℕ} (h : 0 < size) (line old old' : CString) :
    parserIpv6 line size old = parserIpv6 line size old' :=
  wordAfter_old h _ line old old'

theorem parserStatus_old {size : ℕ} (h : 0 < size) (line old old' : CString) :
    parserStatus line size old = parserStatus line size old' := by
  simp only [parserStatus, if_neg h.ne']

theorem parserIpv4_old (sizes : Ipv4Sizes) (h₁ : 0 < sizes.ipv4) (h₂ : 0 < sizes.bcast)
    (h₃ : 0 < sizes.mask) (line : CString) (old old' : Ipv4) :
    parserIpv4 line sizes old = parserIpv4 line sizes old' := by
  simp only [parserIpv4, clear, if_pos h₁, if_pos h₂, if_pos h₃]

/-! ## The name -/

/-- A line that does not start with white space has a name. -/
theorem parserName_ne_nil {size : ℕ} (hsize : 1 < size) {c : UInt8} {line : CString}
    (hc : isspace c = false) (old : CString) : parserName (c :: line) size old ≠ [] := by
  have hdelim : (str " \t").contains c = false := by
    rw [Bool.eq_false_iff]
    intro hmem
    have hcases : c = 32 ∨ c = 9 := by simpa [str] using hmem
    rcases hcases with rfl | rfl
    · exact absurd hc (by decide)
    · exact absurd hc (by decide)
  have hcopy : lineCopy (c :: line) = c :: line.take 254 := rfl
  obtain ⟨token, rest, htokens⟩ :=
    Scan.head_tokens (fun b => (str " \t").contains b) (line.take 254) hdelim
  rw [parserName, if_neg (by omega), hcopy, strtok, htokens]
  obtain ⟨n, hn⟩ : ∃ n, size - 1 = n + 1 := ⟨size - 2, by omega⟩
  show (c :: token).take (size - 1) ≠ []
  rw [hn]
  exact List.cons_ne_nil _ _

end IfaceParser
