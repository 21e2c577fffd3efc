import DxApi.Net.Uri
import DxApi.Xml.Output

/-!
# Numbers in texts

A stream prints a number in decimal digits, behind a minus sign if it is negative. None of these characters is
escaped, and the number that `strtoll` finds in them is the number that was printed.
-/

namespace DxApi.Xml

open Net Request CString

/-- What `operator<<` of `std::ostream` prints for a number. -/
def natText (n : ℕ) : Text := (Nat.toDigits 10 n).map fun c ↦ UInt8.ofNat c.toNat

/-- The sign that stands in front of the digits. -/
def signText (z : ℤ) : Text := if z < 0 then [0x2D] else []

/-- What `operator<<` of `std::ostream` prints for a number with a sign. -/
def numberText (z : ℤ) : Text := signText z ++ natText z.natAbs

variable {c : UInt8} {p : Text} {n : ℕ}

theorem toNat_of_isDigit {c : Char} (h : c.isDigit) : (UInt8.ofNat c.toNat).toNat = c.toNat ∧ 0x30 ≤ c.toNat ∧ c.toNat ≤ 0x39 := by
  have hbounds : 0x30 ≤ c.toNat ∧ c.toNat ≤ 0x39 := by
    rw [Char.isDigit, Bool.and_eq_true, decide_eq_true_iff, decide_eq_true_iff] at h
    exact h
  refine ⟨?_, hbounds⟩
  rw [UInt8.toNat_ofNat', Nat.mod_eq_of_lt]
  omega

theorem isdigit_of_mem_natText (h : c ∈ natText n) : isdigit c = true := by
  obtain ⟨d, hd, rfl⟩ := List.mem_map.mp h
  obtain ⟨htoNat, hlow, hhigh⟩ := toNat_of_isDigit (Nat.isDigit_of_mem_toDigits (by decide) (by decide) hd)
  rw [isdigit, Bool.and_eq_true, decide_eq_true_iff, decide_eq_true_iff, UInt8.le_iff_toNat_le, UInt8.le_iff_toNat_le,
    htoNat]
  exact ⟨hlow, hhigh⟩

theorem natText_ne_nil (n : ℕ) : natText n ≠ [] := by
  rw [natText, ne_eq, List.map_eq_nil_iff]
  exact Nat.toDigits_ne_nil

/-- The digits of a number denote it. -/
theorem decimal_natText (n : ℕ) : decimal (natText n) = n := by
  have hfold (digits : List Char) (first : ℕ) (hdigits : ∀ c ∈ digits, c.isDigit) :
      (digits.map fun c ↦ UInt8.ofNat c.toNat).foldl (fun n c ↦ 10 * n + (c.toNat - 0x30)) first =
        Nat.ofDigitChars 10 digits first := by
    induction digits generalizing first with
    | nil => rw [List.map_nil, List.foldl_nil, Nat.ofDigitChars_nil]
    | cons d digits ih =>
      rw [List.forall_mem_cons] at hdigits
      rw [List.map_cons, List.foldl_cons, ih _ hdigits.2, (toNat_of_isDigit hdigits.1).1, Nat.ofDigitChars_cons]
      rfl
  calc
    decimal (natText n) = Nat.ofDigitChars 10 (Nat.toDigits 10 n) 0 :=
      hfold _ 0 fun _ hmem ↦ Nat.isDigit_of_mem_toDigits (by decide) (by decide) hmem
    _ = n := Nat.ofDigitChars_ten_toDigits

theorem isNumeral_numberText (z : ℤ) : IsNumeral [] (signText z) (natText z.natAbs) where
  blanks_space := List.forall_mem_nil _
  sign_eq := by
    rw [signText]
    split
    · exact .inr (.inr rfl)
    · exact .inl rfl
  digits_ne := natText_ne_nil _
  digits_digit _ hmem := isdigit_of_mem_natText hmem

/-- The number that is read is the one that was printed. -/
theorem numberAhead_numberText (z : ℤ) : numberAhead (numberText z) = z := by
  have hread := (isNumeral_numberText z).numberAhead
  rw [List.nil_append, decimal_natText] at hread
  rw [numberText, hread, signText]
  by_cases hneg : z < 0
  · rw [if_pos hneg, if_pos rfl]
    omega
  · rw [if_neg hneg, if_neg (List.cons_ne_nil _ _).symm]
    omega

theorem strtoullLength_numberText (z : ℤ) : strtoullLength (numberText z) = (numberText z).length :=
  (isNumeral_numberText z).strtoullLength

theorem numberText_ne_nil (z : ℤ) : numberText z ≠ [] :=
  List.append_ne_nil_of_right_ne_nil _ (natText_ne_nil _)

/-- A digit or a minus sign is no blank, and no character with a meaning. -/
theorem plain_numberText {z : ℤ} (h : c ∈ numberText z) : c ∉ 0x26 :: markup ∧ c ≠ 0 ∧ c ≠ 0x0D ∧ isspace c = false := by
  have hdigit : c = 0x2D ∨ isdigit c = true := by
    rcases List.mem_append.mp h with hsign | hdigits
    · rw [signText] at hsign
      split at hsign
      · exact .inl (List.mem_singleton.mp hsign)
      · cases hsign
    · exact .inr (isdigit_of_mem_natText hdigits)
  have hall : ∀ n : Fin 256, UInt8.ofNat n = 0x2D ∨ isdigit (UInt8.ofNat n) = true →
      UInt8.ofNat n ∉ 0x26 :: markup ∧ UInt8.ofNat n ≠ 0 ∧ UInt8.ofNat n ≠ 0x0D ∧ isspace (UInt8.ofNat n) = false := by
    decide +kernel
  have hsame := hall ⟨c.toNat, c.toNat_lt⟩
  rw [UInt8.ofNat_toNat] at hsame
  exact hsame hdigit

end DxApi.Xml
