/-
# Addresses as numbers

`ip_str_to_long` of `uci_handler.c` reads four numbers with `sscanf` and packs them
into 32 bits.  On dotted quads it is the number of the address; but `%u` also takes
white space and a sign in front of a number, numbers above 255, and whatever follows
the last number.  `ip_str_to_long_exact_iff` says on which strings the function is
what it is meant to be.
-/
import Mathlib.Tactic.Ring
import RouterTools.Sscanf

namespace IpAddress

open CString Sscanf
open Stdio (isDigit digitsValue)

/-- `'.'`. -/
def dot : UInt8 := 46

/-- `"%u.%u.%u.%u"`. -/
def ipFormat : List Directive :=
  [.unsigned, .literal dot, .unsigned, .literal dot, .unsigned, .literal dot, .unsigned]

/-- `(p1 << 24) | (p2 << 16) | (p3 << 8) | p4`. -/
def pack (p1 p2 p3 p4 : UInt32) : UInt32 := (p1 <<< 24) ||| (p2 <<< 16) ||| (p3 <<< 8) ||| p4

/-- `ip_str_to_long`. -/
def ipStrToLong (ipStr : CString) : ℕ :=
  match sscanf ipFormat ipStr with
  | [.unsigned p1, .unsigned p2, .unsigned p3, .unsigned p4] => (pack p1 p2 p3 p4).toNat
  | _ => 0

/-! ## Dotted quads -/

/-- A decimal number in `0..255`. -/
def Octet (t : CString) (v : ℕ) : Prop := Digits t ∧ digitsValue t = v ∧ v ≤ 255

instance (t : CString) (v : ℕ) : Decidable (Octet t v) :=
  inferInstanceAs (Decidable (Digits t ∧ digitsValue t = v ∧ v ≤ 255))

/-- The address `a.b.c.d`. -/
def Quad (s : CString) (a b c d : ℕ) : Prop :=
  ∃ t₁ t₂ t₃ t₄, Octet t₁ a ∧ Octet t₂ b ∧ Octet t₃ c ∧ Octet t₄ d ∧
    s = t₁ ++ dot :: (t₂ ++ dot :: (t₃ ++ dot :: t₄))

/-- The number of the address `a.b.c.d`. -/
def addressValue (a b c d : ℕ) : ℕ := a * 2 ^ 24 + b * 2 ^ 16 + c * 2 ^ 8 + d

/-- The string begins with four numbers as `%u` reads them, a dot right after each of
the first three. -/
def FourNumbers (s : CString) (p1 p2 p3 p4 : UInt32) : Prop :=
  ∃ t₁ t₂ t₃ t₄ rest, UnsignedText t₁ p1 ∧ UnsignedText t₂ p2 ∧ UnsignedText t₃ p3 ∧
    UnsignedText t₄ p4 ∧ EndsBefore isDigit rest ∧
    s = t₁ ++ dot :: (t₂ ++ dot :: (t₃ ++ dot :: (t₄ ++ rest)))

theorem endsBefore_dot (rest : CString) : EndsBefore isDigit (dot :: rest) := by
  rintro b ⟨⟩
  decide

/-- **What `sscanf` reads** from a string. -/
theorem sscanf_ipFormat_iff {s : CString} {p1 p2 p3 p4 : UInt32} :
    sscanf ipFormat s = [.unsigned p1, .unsigned p2, .unsigned p3, .unsigned p4] ↔
      FourNumbers s p1 p2 p3 p4 := by
  unfold ipFormat
  constructor
  · intro h
    obtain ⟨t₁, _, _, h₁, rfl, -, ⟨⟩, h⟩ := sscanf_unsigned_eq_cons_iff.mp h
    obtain ⟨_, rfl, h⟩ := sscanf_literal_eq_cons_iff.mp h
    obtain ⟨t₂, _, _, h₂, rfl, -, ⟨⟩, h⟩ := sscanf_unsigned_eq_cons_iff.mp h
    obtain ⟨_, rfl, h⟩ := sscanf_literal_eq_cons_iff.mp h
    obtain ⟨t₃, _, _, h₃, rfl, -, ⟨⟩, h⟩ := sscanf_unsigned_eq_cons_iff.mp h
    obtain ⟨_, rfl, h⟩ := sscanf_literal_eq_cons_iff.mp h
    obtain ⟨t₄, _, rest, h₄, rfl, hrest, ⟨⟩, -⟩ := sscanf_unsigned_eq_cons_iff.mp h
    exact ⟨t₁, t₂, t₃, t₄, rest, h₁, h₂, h₃, h₄, hrest, rfl⟩
  · rintro ⟨t₁, t₂, t₃, t₄, rest, h₁, h₂, h₃, h₄, hrest, rfl⟩
    refine sscanf_unsigned_eq_cons_iff.mpr ⟨t₁, p1, _, h₁, rfl, endsBefore_dot _, rfl, ?_⟩
    refine sscanf_literal_eq_cons_iff.mpr ⟨_, rfl, ?_⟩
    refine sscanf_unsigned_eq_cons_iff.mpr ⟨t₂, p2, _, h₂, rfl, endsBefore_dot _, rfl, ?_⟩
    refine sscanf_literal_eq_cons_iff.mpr ⟨_, rfl, ?_⟩
    refine sscanf_unsigned_eq_cons_iff.mpr ⟨t₃, p3, _, h₃, rfl, endsBefore_dot _, rfl, ?_⟩
    refine sscanf_literal_eq_cons_iff.mpr ⟨_, rfl, ?_⟩
    exact sscanf_unsigned_eq_cons_iff.mpr ⟨t₄, p4, rest, h₄, rfl, hrest, rfl, rfl⟩

theorem ipStrToLong_of_fourNumbers {s : CString} {p1 p2 p3 p4 : UInt32}
    (h : FourNumbers s p1 p2 p3 p4) : ipStrToLong s = (pack p1 p2 p3 p4).toNat := by
  rw [ipStrToLong, sscanf_ipFormat_iff.mpr h]

/-- Four numbers are read, or the value is the error value. -/
theorem ipStrToLong_cases (s : CString) :
    (∃ p1 p2 p3 p4, FourNumbers s p1 p2 p3 p4) ∨ ipStrToLong s = 0 := by
  unfold ipStrToLong
  split
  · rename_i p1 p2 p3 p4 heq
    exact .inl ⟨p1, p2, p3, p4, sscanf_ipFormat_iff.mp heq⟩
  · exact .inr rfl

/-! ## Packing -/

/-- Shifted left by `k` bits nothing is left exactly of the multiples of `2 ^ (32 - k)`. -/
theorem shiftLeft_eq_zero_iff {p : UInt32} {k : ℕ} (hk : k < 32) :
    p <<< UInt32.ofNat k = 0 ↔ p.toNat % 2 ^ (32 - k) = 0 := by
  have hk' : (UInt32.ofNat k).toNat % 32 = k := by
    rw [UInt32.toNat_ofNat']
    omega
  have hsplit : 2 ^ 32 = 2 ^ k * 2 ^ (32 - k) := by
    rw [← Nat.pow_add]
    congr 1
    omega
  rw [← UInt32.toNat_inj, UInt32.toNat_shiftLeft, hk', Nat.shiftLeft_eq, Nat.mul_comm, hsplit,
    Nat.mul_mod_mul_left]
  show 2 ^ k * (p.toNat % 2 ^ (32 - k)) = 0 ↔ _
  rw [Nat.mul_eq_zero]
  constructor
  · rintro (h | h)
    · exact absurd h (Nat.two_pow_pos k).ne'
    · exact h
  · exact .inr

/-- The packed number is the error value exactly when each number is lost in its shift. -/
theorem pack_eq_zero_iff (p1 p2 p3 p4 : UInt32) :
    pack p1 p2 p3 p4 = 0 ↔
      p1.toNat % 2 ^ 8 = 0 ∧ p2.toNat % 2 ^ 16 = 0 ∧ p3.toNat % 2 ^ 24 = 0 ∧ p4 = 0 := by
  have h1 : p1 <<< 24 = 0 ↔ p1.toNat % 2 ^ 8 = 0 := shiftLeft_eq_zero_iff (k := 24) (by decide)
  have h2 : p2 <<< 16 = 0 ↔ p2.toNat % 2 ^ 16 = 0 := shiftLeft_eq_zero_iff (k := 16) (by decide)
  have h3 : p3 <<< 8 = 0 ↔ p3.toNat % 2 ^ 24 = 0 := shiftLeft_eq_zero_iff (k := 8) (by decide)
  rw [pack, UInt32.or_eq_zero_iff, UInt32.or_eq_zero_iff, UInt32.or_eq_zero_iff, h1, h2, h3,
    and_assoc, and_assoc]

/-- A number below `2 ^ k` merges into the bits a shift by `k` leaves free. -/
theorem mul_two_pow_or {x y k : ℕ} (hy : y < 2 ^ k) : x * 2 ^ k ||| y = x * 2 ^ k + y := by
  rw [← Nat.shiftLeft_eq, Nat.shiftLeft_add_eq_or_of_lt hy]

/-- **Octets are packed** side by side. -/
theorem pack_octets {a b c d : ℕ} (ha : a ≤ 255) (hb : b ≤ 255) (hc : c ≤ 255) (hd : d ≤ 255) :
    (pack (UInt32.ofNat a) (UInt32.ofNat b) (UInt32.ofNat c) (UInt32.ofNat d)).toNat =
      addressValue a b c d := by
  have hval : ∀ v ≤ 255, (UInt32.ofNat v).toNat = v := by
    intro v hv
    rw [UInt32.toNat_ofNat']
    omega
  have h1 : (UInt32.ofNat a <<< 24).toNat = a * 2 ^ 24 := by
    rw [UInt32.toNat_shiftLeft, hval a ha, Nat.shiftLeft_eq]
    exact Nat.mod_eq_of_lt (by show a * 2 ^ 24 < _; omega)
  have h2 : (UInt32.ofNat b <<< 16).toNat = b * 2 ^ 16 := by
    rw [UInt32.toNat_shiftLeft, hval b hb, Nat.shiftLeft_eq]
    exact Nat.mod_eq_of_lt (by show b * 2 ^ 16 < _; omega)
  have h3 : (UInt32.ofNat c <<< 8).toNat = c * 2 ^ 8 := by
    rw [UInt32.toNat_shiftLeft, hval c hc, Nat.shiftLeft_eq]
    exact Nat.mod_eq_of_lt (by show c * 2 ^ 8 < _; omega)
  rw [pack, UInt32.toNat_or, UInt32.toNat_or, UInt32.toNat_or, h1, h2, h3, hval d hd,
    mul_two_pow_or (by omega)]
  have h12 : a * 2 ^ 24 + b * 2 ^ 16 = (a * 2 ^ 8 + b) * 2 ^ 16 := by ring
  rw [h12, mul_two_pow_or (by omega)]
  have h123 : (a * 2 ^ 8 + b) * 2 ^ 16 + c * 2 ^ 8 = (a * 2 ^ 16 + b * 2 ^ 8 + c) * 2 ^ 8 := by ring
  rw [h123, mul_two_pow_or (by omega), addressValue]
  ring

/-! ## The value of a string -/

/-- An octet is a number `%u` reads. -/
theorem Octet.unsignedText {t : CString} {v : ℕ} (h : Octet t v) :
    UnsignedText t (UInt32.ofNat v) := by
  obtain ⟨hdigits, rfl, hv⟩ := h
  refine ⟨false, t, ⟨hdigits, [], [], by simp [Blank], .inl rfl, rfl⟩, ?_⟩
  unfold unsignedValue
  dsimp only
  rw [if_neg (by omega), if_neg Bool.false_ne_true]

theorem Quad.le {s : CString} {a b c d : ℕ} (h : Quad s a b c d) :
    a ≤ 255 ∧ b ≤ 255 ∧ c ≤ 255 ∧ d ≤ 255 := by
  obtain ⟨_, _, _, _, h₁, h₂, h₃, h₄, -⟩ := h
  exact ⟨h₁.2.2, h₂.2.2, h₃.2.2, h₄.2.2⟩

/-- The four numbers of a dotted quad. -/
theorem Quad.fourNumbers {s : CString} {a b c d : ℕ} (h : Quad s a b c d) :
    FourNumbers s (UInt32.ofNat a) (UInt32.ofNat b) (UInt32.ofNat c) (UInt32.ofNat d) := by
  obtain ⟨t₁, t₂, t₃, t₄, h₁, h₂, h₃, h₄, rfl⟩ := h
  exact ⟨t₁, t₂, t₃, t₄, [], h₁.unsignedText, h₂.unsignedText, h₃.unsignedText, h₄.unsignedText,
    by simp [EndsBefore], by rw [List.append_nil]⟩

/-- **The value of a dotted quad** is the number of the address. -/
theorem Quad.value {s : CString} {a b c d : ℕ} (h : Quad s a b c d) :
    ipStrToLong s = addressValue a b c d := by
  obtain ⟨ha, hb, hc, hd⟩ := h.le
  rw [ipStrToLong_of_fourNumbers h.fourNumbers, pack_octets ha hb hc hd]

/-- The bytes of a dotted quad. -/
theorem Quad.mem {s : CString} {a b c d : ℕ} (h : Quad s a b c d) {x : UInt8} (hx : x ∈ s) :
    isDigit x = true ∨ x = dot := by
  obtain ⟨t₁, t₂, t₃, t₄, h₁, h₂, h₃, h₄, rfl⟩ := h
  simp only [List.mem_append, List.mem_cons] at hx
  rcases hx with hx | hx | hx | hx | hx | hx | hx
  · exact .inl (h₁.1.2 x hx)
  · exact .inr hx
  · exact .inl (h₂.1.2 x hx)
  · exact .inr hx
  · exact .inl (h₃.1.2 x hx)
  · exact .inr hx
  · exact .inl (h₄.1.2 x hx)

/-- The function gives a dotted quad its number and everything else the error value. -/
def Exact (s : CString) : Prop :=
  (∀ a b c d, Quad s a b c d → ipStrToLong s = addressValue a b c d) ∧
    ((¬ ∃ a b c d, Quad s a b c d) → ipStrToLong s = 0)

/-- The string is a dotted quad, or it does not begin with four numbers, or each of the
numbers it begins with is lost in its shift. -/
def QuadOrHarmless (s : CString) : Prop :=
  (∃ a b c d, Quad s a b c d) ∨
    ∀ p1 p2 p3 p4, FourNumbers s p1 p2 p3 p4 →
      p1.toNat % 2 ^ 8 = 0 ∧ p2.toNat % 2 ^ 16 = 0 ∧ p3.toNat % 2 ^ 24 = 0 ∧ p4 = 0

/-- **Where `ip_str_to_long` accepts exactly the dotted quads.**  It is exact on a string
if and only if the string is a dotted quad or what `%u` reads of it is harmless.  Among
dotted quads it is injective and keeps the order of the addresses. -/
theorem ip_str_to_long_exact_iff (s : CString) :
    (Exact s ↔ QuadOrHarmless s) ∧
      ∀ t a b c d a' b' c' d', Quad s a b c d → Quad t a' b' c' d' →
        (ipStrToLong s = ipStrToLong t ↔ (a, b, c, d) = (a', b', c', d')) ∧
        (ipStrToLong s < ipStrToLong t ↔
          a < a' ∨ a = a' ∧ (b < b' ∨ b = b' ∧ (c < c' ∨ c = c' ∧ d < d'))) := by
  refine ⟨?_, ?_⟩
  · constructor
    · rintro ⟨-, hother⟩
      by_cases hquad : ∃ a b c d, Quad s a b c d
      · exact .inl hquad
      · refine .inr fun p1 p2 p3 p4 hfour => ?_
        have hzero := hother hquad
        rw [ipStrToLong_of_fourNumbers hfour] at hzero
        exact (pack_eq_zero_iff p1 p2 p3 p4).mp (UInt32.toNat_inj.mp hzero)
    · intro h
      refine ⟨fun a b c d hquad => hquad.value, fun hnot => ?_⟩
      -- what is not a quad reads as four harmless numbers, or not at all
      have hlost := h.resolve_left hnot
      rcases ipStrToLong_cases s with ⟨p1, p2, p3, p4, hfour⟩ | hzero
      · rw [ipStrToLong_of_fourNumbers hfour,
          (pack_eq_zero_iff p1 p2 p3 p4).mpr (hlost p1 p2 p3 p4 hfour)]
        rfl
      · exact hzero
  · intro t a b c d a' b' c' d' hs ht
    have hs' := hs.le
    have ht' := ht.le
    rw [hs.value, ht.value]
    simp only [addressValue, Prod.mk.injEq]
    constructor
    · omega
    · omega

/-- Two addresses of a private network. -/
theorem ip_str_to_long_exact_iff_private :
    Exact (str "192.168.1.9") ∧ ipStrToLong (str "192.168.1.9") < ipStrToLong (str "192.168.2.1") := by
  have h192 : Octet (str "192") 192 := by decide
  have h168 : Octet (str "168") 168 := by decide
  have h1 : Octet (str "1") 1 := by decide
  have h2 : Octet (str "2") 2 := by decide
  have h9 : Octet (str "9") 9 := by decide
  have hs : Quad (str "192.168.1.9") 192 168 1 9 := ⟨_, _, _, _, h192, h168, h1, h9, by decide⟩
  have ht : Quad (str "192.168.2.1") 192 168 2 1 := ⟨_, _, _, _, h192, h168, h2, h1, by decide⟩
  constructor
  · exact (ip_str_to_long_exact_iff _).1.mpr (.inl ⟨192, 168, 1, 9, hs⟩)
  · exact ((ip_str_to_long_exact_iff _).2 _ _ _ _ _ _ _ _ _ hs ht).2.mpr (by decide)

/-- Text after the fourth number is not noticed. -/
theorem trailing_text_accepted : ¬ ∀ s, Exact s := by
  intro h
  have hvalue : ipStrToLong (str "1.2.3.4x") = 16909060 := by decide
  have hnot : ¬ ∃ a b c d, Quad (str "1.2.3.4x") a b c d := by
    rintro ⟨a, b, c, d, hquad⟩
    have hx := hquad.mem (x := 120) (by decide)
    exact absurd hx (by decide)
  have hzero := (h (str "1.2.3.4x")).2 hnot
  rw [hvalue] at hzero
  exact absurd hzero (by decide)

end IpAddress
