import Mathlib.Data.Nat.Bits
import Mathlib.Tactic.Ring

/-!
# Encoding forms

A text is a list of scalar values. In its 16-bit form a scalar value beyond the basic plane is a pair
of surrogates, in its 8-bit form it is four bytes. A sequence of units is well formed if it is the
16-bit form of a text.
-/

namespace Unicode

/-- The 16-bit units of a scalar value. -/
def utf16Units (c : Char) : List ℕ :=
  if c.toNat < 0x10000 then
    [c.toNat]
  else
    [0xD800 + (c.toNat - 0x10000) / 0x400, 0xDC00 + (c.toNat - 0x10000) % 0x400]

def utf16Form (text : List Char) : List ℕ := text.flatMap utf16Units

def utf8Form (text : List Char) : List UInt8 := text.flatMap String.utf8EncodeChar

/-- A unit that is no scalar value. -/
def IsSurrogate (n : ℕ) : Prop := 0xD800 ≤ n ∧ n < 0xE000

variable {c : Char} {n : ℕ}

theorem not_isSurrogate_toNat (c : Char) : ¬ IsSurrogate c.toNat := by
  have hvalid : c.toNat < 0xD800 ∨ 0xDFFF < c.toNat ∧ c.toNat < 0x110000 := c.valid
  rw [IsSurrogate]
  omega

theorem toNat_lt (c : Char) : c.toNat < 0x110000 := by
  have hvalid : c.toNat < 0xD800 ∨ 0xDFFF < c.toNat ∧ c.toNat < 0x110000 := c.valid
  omega

/-- What is no surrogate and not too large is a scalar value. -/
theorem exists_char (hsurrogate : ¬ IsSurrogate n) (hlt : n < 0x110000) : ∃ c : Char, c.toNat = n := by
  have hvalid : n.isValidChar := by
    rw [IsSurrogate] at hsurrogate
    rw [Nat.isValidChar]
    omega
  exact ⟨Char.ofNatAux n hvalid, by
    change (BitVec.ofNatLT n _).toNat = n
    rw [BitVec.toNat_ofNatLT]⟩

theorem utf16Units_of_lt (h : c.toNat < 0x10000) : utf16Units c = [c.toNat] := if_pos h

/-- A scalar value beyond the basic plane is a pair of surrogates. -/
theorem utf16Units_of_pair {high low : ℕ} (hhigh : 0xD800 ≤ high) (hlow : 0xDC00 ≤ low) (hlt : low < 0xE000)
    (h : c.toNat = 0x10000 + (high - 0xD800) * 0x400 + (low - 0xDC00)) : utf16Units c = [high, low] := by
  have hdiv : 0xD800 + (c.toNat - 0x10000) / 0x400 = high := by omega
  have hmod : 0xDC00 + (c.toNat - 0x10000) % 0x400 = low := by omega
  rw [utf16Units, if_neg (by omega), hdiv, hmod]

theorem exists_pair (h : 0x10000 ≤ c.toNat) :
    ∃ high low, utf16Units c = [high, low] ∧ 0xD800 ≤ high ∧ high < 0xDC00 ∧ 0xDC00 ≤ low ∧ low < 0xE000 ∧
      c.toNat = 0x10000 + (high - 0xD800) * 0x400 + (low - 0xDC00) := by
  have hlt := toNat_lt c
  exact ⟨_, _, if_neg (by omega), by omega, by omega, by omega, by omega, by omega⟩

@[simp]
theorem utf16Form_nil : utf16Form [] = [] := rfl

theorem utf16Form_cons (c : Char) (text : List Char) : utf16Form (c :: text) = utf16Units c ++ utf16Form text := rfl

@[simp]
theorem utf8Form_nil : utf8Form [] = [] := rfl

theorem utf8Form_cons (c : Char) (text : List Char) :
    utf8Form (c :: text) = String.utf8EncodeChar c ++ utf8Form text := rfl

/-! ## The bytes of a scalar value -/

theorem utf8EncodeChar_one (h : c.toNat < 0x80) : String.utf8EncodeChar c = [UInt8.ofNat c.toNat] :=
  if_pos (Nat.lt_succ_iff.mp h)

theorem utf8EncodeChar_two (hlow : 0x80 ≤ c.toNat) (hhigh : c.toNat < 0x800) :
    String.utf8EncodeChar c =
      [UInt8.ofNat (c.toNat / 64 % 0x20 + 0xC0), UInt8.ofNat (c.toNat % 0x40 + 0x80)] := by
  have hone : ¬ c.val.toNat ≤ 0x7F := not_le.mpr hlow
  have htwo : c.val.toNat ≤ 0x7FF := Nat.lt_succ_iff.mp hhigh
  exact (if_neg hone).trans (if_pos htwo)

theorem utf8EncodeChar_three (hlow : 0x800 ≤ c.toNat) (hhigh : c.toNat < 0x10000) :
    String.utf8EncodeChar c =
      [UInt8.ofNat (c.toNat / 4096 % 0x10 + 0xE0), UInt8.ofNat (c.toNat / 64 % 0x40 + 0x80),
        UInt8.ofNat (c.toNat % 0x40 + 0x80)] := by
  have hone : ¬ c.val.toNat ≤ 0x7F := not_le.mpr (hlow.trans' (by decide))
  have htwo : ¬ c.val.toNat ≤ 0x7FF := not_le.mpr hlow
  have hthree : c.val.toNat ≤ 0xFFFF := Nat.lt_succ_iff.mp hhigh
  exact ((if_neg hone).trans (if_neg htwo)).trans (if_pos hthree)

theorem utf8EncodeChar_four (hlow : 0x10000 ≤ c.toNat) :
    String.utf8EncodeChar c =
      [UInt8.ofNat (c.toNat / 262144 % 0x08 + 0xF0), UInt8.ofNat (c.toNat / 4096 % 0x40 + 0x80),
        UInt8.ofNat (c.toNat / 64 % 0x40 + 0x80), UInt8.ofNat (c.toNat % 0x40 + 0x80)] := by
  have hone : ¬ c.val.toNat ≤ 0x7F := not_le.mpr (hlow.trans' (by decide))
  have htwo : ¬ c.val.toNat ≤ 0x7FF := not_le.mpr (hlow.trans' (by decide))
  have hthree : ¬ c.val.toNat ≤ 0xFFFF := not_le.mpr hlow
  exact ((if_neg hone).trans (if_neg htwo)).trans (if_neg hthree)

/-- No text has more units than bytes. -/
theorem length_utf16Units_le (c : Char) : (utf16Units c).length ≤ (String.utf8EncodeChar c).length := by
  rw [String.length_utf8EncodeChar]
  by_cases hbasic : c.toNat < 0x10000
  · rw [utf16Units_of_lt hbasic]
    exact Char.utf8Size_pos c
  · have hfour := congrArg List.length (utf8EncodeChar_four (not_lt.mp hbasic))
    rw [String.length_utf8EncodeChar] at hfour
    rw [hfour, utf16Units, if_neg hbasic]
    exact (by decide : 2 ≤ 4)

theorem length_utf16Form_le (text : List Char) : (utf16Form text).length ≤ (utf8Form text).length := by
  induction text with
  | nil => exact le_rfl
  | cons c text ih =>
    rw [utf16Form_cons, utf8Form_cons, List.length_append, List.length_append]
    exact Nat.add_le_add (length_utf16Units_le c) ih

end Unicode
