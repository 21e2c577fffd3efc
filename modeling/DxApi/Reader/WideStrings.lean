import DxApi.Lib.Unicode
import DxApi.Reader.Trips

/-!
# Wide strings

The loop of `writeUTF8(const wchar_t *)` takes one 16-bit unit after the other, or a pair of
surrogates, and writes the one to four bytes of the scalar value. It returns for the sequences that
are the 16-bit form of a text. Where a `wchar_t` has 32 bits the loop is the same: what is beyond the
basic plane is taken for a unit or for a surrogate.
-/

namespace DxApi.Reader

open Exec ByteMemory ByteOrder Writer Unicode

/-! ## Bits -/

/-- A mask behind whose bits there are `k` more. -/
theorem and_mul_two_pow (c mask k : ℕ) : c &&& mask * 2 ^ k = (c / 2 ^ k &&& mask) * 2 ^ k := by
  apply Nat.eq_of_testBit_eq
  intro i
  rw [Nat.testBit_and, Nat.testBit_mul_two_pow, Nat.testBit_mul_two_pow, Nat.testBit_and, Nat.testBit_div_two_pow]
  by_cases hlow : k ≤ i
  · simp [hlow]
  · simp [hlow]

/-- Some of the bits of a number. -/
theorem and_field (c k bits : ℕ) : c &&& (2 ^ bits - 1) * 2 ^ k = c / 2 ^ k % 2 ^ bits * 2 ^ k := by
  rw [and_mul_two_pow, Nat.and_two_pow_sub_one_eq_mod]

theorem and_surrogate_iff {c : ℕ} (hc : c < 0x10000) : c &&& 0xF800 = 0xD800 ↔ IsSurrogate c := by
  have hfield : c &&& 0xF800 = c / 0x800 % 0x20 * 0x800 := and_field c 11 5
  rw [hfield, IsSurrogate]
  omega

theorem and_low_iff (c : ℕ) : c &&& 0x400 ≠ 0 ↔ c / 0x400 % 2 = 1 := by
  have hfield : c &&& 0x400 = c / 0x400 % 2 * 0x400 := and_field c 10 1
  rw [hfield]
  omega

theorem and_lowSurrogate (c : ℕ) : c &&& 0xFC00 = c / 0x400 % 0x40 * 0x400 := and_field c 10 6

/-- The mark of a byte is in front of the bits of the character. -/
theorem mark_or (mark bits x : ℕ) (h : mark % 2 ^ bits = 0) :
    mark ||| x &&& (2 ^ bits - 1) = x % 2 ^ bits + mark := by
  have hmark := Nat.div_mul_cancel (Nat.dvd_of_mod_eq_zero h)
  have hlt := Nat.mod_lt x (Nat.two_pow_pos bits)
  rw [Nat.and_two_pow_sub_one_eq_mod, ← hmark, ← Nat.shiftLeft_eq, ← Nat.shiftLeft_add_eq_or_of_lt hlt, Nat.add_comm]

theorem continuation_eq (x : ℕ) : 0x80 ||| x &&& 0x3F = x % 0x40 + 0x80 := mark_or 0x80 6 x (by decide)

theorem leadOfTwo_eq (x : ℕ) : 0xC0 ||| x &&& 0x1F = x % 0x20 + 0xC0 := mark_or 0xC0 5 x (by decide)

theorem leadOfThree_eq (x : ℕ) : 0xE0 ||| x &&& 0x0F = x % 0x10 + 0xE0 := mark_or 0xE0 4 x (by decide)

theorem leadOfFour_eq (x : ℕ) : 0xF0 ||| x &&& 0x07 = x % 0x08 + 0xF0 := mark_or 0xF0 3 x (by decide)

/-! ## What the loop writes -/

/-- The patch is there and holds the data. -/
def Stores (patch : Option Patch) (data : List UInt8) : Prop := ∃ p, patch = some p ∧ p.Holds data

variable {first second : Option Patch} {data data' : List UInt8}

theorem stores_byte (value : UInt8) : Stores (some (Patch.byte value)) [value] := ⟨_, rfl, Patch.holds_byte value⟩

theorem Stores.both (h : Stores first data) (h' : Stores second data') : Stores (both first second) (data ++ data') := by
  obtain ⟨p, rfl, hp⟩ := h
  obtain ⟨p', rfl, hp'⟩ := h'
  exact ⟨p.append p', rfl, hp.append hp'⟩

/-- Units in front of more units. -/
theorem both_eq_some {p : Patch} (h : both first second = some p) :
    ∃ p' p'', first = some p' ∧ second = some p'' ∧ p = p'.append p'' := by
  cases first with
  | none => cases h
  | some p' =>
    cases second with
    | none => cases h
    | some p'' => exact ⟨p', p'', rfl, rfl, (Option.some.inj h).symm⟩

theorem stores_codeUnitPatch {c : Char} (hbasic : c.toNat < 0x10000) :
    Stores (codeUnitPatch c.toNat) (String.utf8EncodeChar c) := by
  have hshift : c.toNat >>> 6 = c.toNat / 64 := Nat.shiftRight_eq_div_pow _ 6
  have hshift' : c.toNat >>> 12 = c.toNat / 4096 := Nat.shiftRight_eq_div_pow _ 12
  by_cases hone : c.toNat < 0x80
  · rw [codeUnitPatch, if_pos hone, utf8EncodeChar_one hone]
    exact stores_byte _
  by_cases htwo : c.toNat < 0x800
  · rw [codeUnitPatch, if_neg hone, if_pos htwo, utf8EncodeChar_two (not_lt.mp hone) htwo, hshift,
      leadOfTwo_eq, continuation_eq]
    exact (stores_byte _).both (stores_byte _)
  · rw [codeUnitPatch, if_neg hone, if_neg htwo, utf8EncodeChar_three (not_lt.mp htwo) hbasic, hshift, hshift',
      leadOfThree_eq, continuation_eq, continuation_eq]
    exact (stores_byte _).both ((stores_byte _).both (stores_byte _))

/-- The sum that wraps around is the scalar value. -/
theorem surrogates_eq {high low n : ℕ} (hhigh : 0xD800 ≤ high) (hhigh_lt : high < 0xDC00) (hlow : 0xDC00 ≤ low)
    (hlow_lt : low < 0xE000) (h : n = 0x10000 + (high - 0xD800) * 0x400 + (low - 0xDC00)) :
    Writer.word 4 (high * 2 ^ 10 + (0x10000 - 0xD800 * 2 ^ 10 - 0xDC00 : ℤ) + low) = n := by
  rw [Writer.word]
  omega

theorem stores_surrogatesPatch {c : Char} {high low : ℕ} (hbeyond : 0x10000 ≤ c.toNat)
    (hword : Writer.word 4 (high * 2 ^ 10 + (0x10000 - 0xD800 * 2 ^ 10 - 0xDC00 : ℤ) + low) = c.toNat) :
    Stores (surrogatesPatch high low) (String.utf8EncodeChar c) := by
  have hshift : c.toNat >>> 6 = c.toNat / 64 := Nat.shiftRight_eq_div_pow _ 6
  have hshift' : c.toNat >>> 12 = c.toNat / 4096 := Nat.shiftRight_eq_div_pow _ 12
  have hshift'' : c.toNat >>> 18 = c.toNat / 262144 := Nat.shiftRight_eq_div_pow _ 18
  rw [surrogatesPatch, hword, utf8EncodeChar_four hbeyond]
  simp only [hshift, hshift', hshift'']
  rw [leadOfFour_eq, continuation_eq, continuation_eq, continuation_eq]
  exact (stores_byte _).both ((stores_byte _).both ((stores_byte _).both (stores_byte _)))

theorem wideCharactersPatch_unit {c : ℕ} (units : List ℕ) (hunit : c < 0x800 ∨ c &&& 0xF800 ≠ 0xD800) :
    wideCharactersPatch (c :: units) = both (codeUnitPatch c) (wideCharactersPatch units) := by
  rw [wideCharactersPatch.eq_def]
  exact if_pos hunit

theorem wideCharactersPatch_pair {c cc : ℕ} (units : List ℕ) (hunit : ¬ (c < 0x800 ∨ c &&& 0xF800 ≠ 0xD800))
    (hhigh : ¬ c &&& 0x400 ≠ 0) (hlow : ¬ cc &&& 0xFC00 ≠ 0xDC00) :
    wideCharactersPatch (c :: cc :: units) = both (surrogatesPatch c cc) (wideCharactersPatch units) := by
  rw [wideCharactersPatch.eq_def]
  exact ((if_neg hunit).trans (if_neg hhigh)).trans (if_neg hlow)

/-- The 16-bit form of a text is written as its 8-bit form. -/
theorem stores_wideCharactersPatch (text : List Char) :
    Stores (wideCharactersPatch (utf16Form text)) (utf8Form text) := by
  induction text with
  | nil => exact ⟨Patch.empty, rfl, rfl, fun offset hoffset ↦ absurd hoffset (Nat.not_lt_zero offset)⟩
  | cons c text ih =>
    by_cases hbasic : c.toNat < 0x10000
    · have hunit : c.toNat < 0x800 ∨ c.toNat &&& 0xF800 ≠ 0xD800 :=
        .inr fun hsame ↦ not_isSurrogate_toNat c ((and_surrogate_iff hbasic).mp hsame)
      rw [utf16Form_cons, utf16Units_of_lt hbasic, List.singleton_append, wideCharactersPatch_unit _ hunit,
        utf8Form_cons]
      exact (stores_codeUnitPatch hbasic).both ih
    · obtain ⟨high, low, hunits, hhigh, hhigh_lt, hlow, hlow_lt, hvalue⟩ := exists_pair (not_lt.mp hbasic)
      have hsurrogate : high &&& 0xF800 = 0xD800 :=
        (and_surrogate_iff (by omega)).mpr ⟨hhigh, by omega⟩
      have hunit : ¬ (high < 0x800 ∨ high &&& 0xF800 ≠ 0xD800) := by omega
      have hfirst : ¬ high &&& 0x400 ≠ 0 := by
        rw [and_low_iff]
        omega
      have hsecond : ¬ low &&& 0xFC00 ≠ 0xDC00 := by
        rw [and_lowSurrogate]
        omega
      rw [utf16Form_cons, hunits, List.cons_append, List.singleton_append,
        wideCharactersPatch_pair _ hunit hfirst hsecond, utf8Form_cons]
      exact (stores_surrogatesPatch (not_lt.mp hbasic)
        (surrogates_eq hhigh hhigh_lt hlow hlow_lt hvalue)).both ih

/-- What is not refused is the 16-bit form of a text. -/
theorem exists_text {units : List ℕ} {p : Patch} (hunits : ∀ c ∈ units, c < 0x10000)
    (h : wideCharactersPatch units = some p) : ∃ text, units = utf16Form text := by
  induction units using putWideCharacters.induct generalizing p with
  | case1 => exact ⟨[], rfl⟩
  | case2 c units hunit ih =>
    rw [wideCharactersPatch_unit units hunit] at h
    rw [List.forall_mem_cons] at hunits
    obtain ⟨-, p', -, hp', -⟩ := both_eq_some h
    obtain ⟨text, rfl⟩ := ih hunits.2 hp'
    have hnot : ¬ IsSurrogate c := by
      intro hsurrogate
      have hsame := (and_surrogate_iff hunits.1).mpr hsurrogate
      rw [IsSurrogate] at hsurrogate
      omega
    obtain ⟨char, rfl⟩ := exists_char hnot (hunits.1.trans (by decide))
    exact ⟨char :: text, by rw [utf16Form_cons, utf16Units_of_lt hunits.1, List.singleton_append]⟩
  | case3 c units hunit hlow =>
    rw [wideCharactersPatch.eq_def] at h
    simp only [if_neg hunit, if_pos hlow] at h
    cases h
  | case4 c hunit hhigh =>
    rw [wideCharactersPatch.eq_def] at h
    simp only [if_neg hunit, if_neg hhigh] at h
    cases h
  | case5 c hunit hhigh cc units hother =>
    rw [wideCharactersPatch.eq_def] at h
    simp only [if_neg hunit, if_neg hhigh, if_pos hother] at h
    cases h
  | case6 c hunit hhigh cc units hpair ih =>
    rw [wideCharactersPatch_pair units hunit hhigh hpair] at h
    rw [List.forall_mem_cons, List.forall_mem_cons] at hunits
    obtain ⟨-, p', -, hp', -⟩ := both_eq_some h
    obtain ⟨text, rfl⟩ := ih hunits.2.2 hp'
    have hsurrogate : IsSurrogate c := (and_surrogate_iff hunits.1).mp (by omega)
    rw [and_low_iff] at hhigh
    rw [and_lowSurrogate] at hpair
    rw [IsSurrogate] at hsurrogate
    have hcc := hunits.2.1
    obtain ⟨char, hchar⟩ : ∃ char : Char, char.toNat = 0x10000 + (c - 0xD800) * 0x400 + (cc - 0xDC00) := by
      apply exists_char
      · rw [IsSurrogate]
        omega
      · omega
    exact ⟨char :: text, by
      rw [utf16Form_cons, utf16Units_of_pair hsurrogate.1 (by omega) (by omega) hchar, List.cons_append,
        List.singleton_append]⟩

/-! ## 16-bit characters -/

theorem Stores.holds {p : Patch} (h : Stores first data) (hp : first = some p) : p.Holds data := by
  obtain ⟨p', hp', hholds⟩ := h
  obtain rfl : p = p' := Option.some.inj (hp.symm.trans hp')
  exact hholds

/-- A text whose 8-bit form has a length of 16 bits is written. -/
theorem stores_wideUTF8Patch {text : List Char} (hshort : (utf8Form text).length < 0xFFFF) :
    Stores (wideUTF8Patch (utf16Form text)) (encodeUTF8 (utf8Form text)) := by
  have hunits : ¬ 0xFFFF ≤ (utf16Form text).length := not_le.mpr ((length_utf16Form_le text).trans_lt hshort)
  rw [wideUTF8Patch, if_neg hunits]
  by_cases hempty : (utf16Form text).length ≠ 0
  · obtain ⟨q, hq, hholds⟩ := stores_wideCharactersPatch text
    rw [if_pos hempty, hq, Option.bind_some, withLength, if_neg (by rw [hholds.size_eq]; omega), encodeUTF8,
      hholds.size_eq]
    exact ⟨_, rfl, (Patch.holds_data _).append hholds⟩
  · have hnil : text = [] := by
      cases text with
      | nil => rfl
      | cons c text =>
        rw [utf16Form_cons, utf16Units] at hempty
        split at hempty <;> simp at hempty
    subst hnil
    exact ⟨_, rfl, Patch.holds_wordPatch 2 0⟩

/-- Nothing else is written. -/
theorem exists_text_of_wideUTF8Patch {units : List ℕ} {p : Patch} (hunits : ∀ c ∈ units, c < 0x10000)
    (h : wideUTF8Patch units = some p) : ∃ text, units = utf16Form text ∧ (utf8Form text).length < 0xFFFF := by
  rw [wideUTF8Patch] at h
  split at h
  · cases h
  split at h
  · obtain ⟨q, hq, hp⟩ := Option.bind_eq_some_iff.mp h
    obtain ⟨text, rfl⟩ := exists_text hunits hq
    refine ⟨text, rfl, ?_⟩
    rw [← ((stores_wideCharactersPatch text).holds hq).size_eq]
    rw [withLength] at hp
    split at hp
    · cases hp
    · omega
  · exact ⟨[], List.length_eq_zero_iff.mp (by omega), by decide⟩

/-- A sequence of 16-bit units is written if and only if it is well formed and not too long, and what is
written is the 8-bit form of the text behind its length. -/
theorem writeWideUTF8_encodes (units : List UInt16) (w : DataWriter) :
    wp (writeWideUTF8 (units.map UInt16.toNat))
      (fun _ w' ↦ ∃ text, units.map UInt16.toNat = utf16Form text ∧ (utf8Form text).length < 0xFFFF ∧
        written w w' = encodeUTF8 (utf8Form text) ∧ ReadsField readUTF8 (written w w') (some (utf8Form text)))
      (fun _ _ ↦ ∀ text, units.map UInt16.toNat = utf16Form text → (utf8Form text).length < 0xFFFF →
        w.dataEnd < w.dataPtr + (2 + (utf8Form text).length : ℕ)) w := by
  have hunits : ∀ c ∈ units.map UInt16.toNat, c < 0x10000 := by
    intro c hc
    obtain ⟨unit, -, rfl⟩ := List.mem_map.mp hc
    exact unit.toNat_lt
  apply wp_mono (puts_writeWideUTF8 (units.map UInt16.toNat) w)
  · rintro - w' ⟨p, hp, rfl, -⟩
    obtain ⟨text, htext, hshort⟩ := exists_text_of_wideUTF8Patch hunits hp
    rw [htext] at hp
    have hwritten := ((stores_wideUTF8Patch hshort).holds hp).slice_put w
    refine ⟨text, htext, hshort, hwritten, ?_⟩
    rw [written, hwritten]
    exact readsField_of_decodes none fun cls ↦ decodes_getUTF8 hshort
  · intro error w' hover text htext hshort
    obtain ⟨p, hp, hholds⟩ := stores_wideUTF8Patch hshort
    rw [← htext] at hp
    have hbehind := hover p hp
    rwa [hholds.size_eq, length_encodeUTF8] at hbehind

/-! ## 32-bit characters -/

theorem size_codeUnitPatch {c : Char} {p : Patch} (h : codeUnitPatch c.toNat = some p) :
    p.size ≤ (String.utf8EncodeChar c).length ∧ (p.size = (String.utf8EncodeChar c).length → c.toNat < 0x10000) := by
  by_cases hbasic : c.toNat < 0x10000
  · have hsize := ((stores_codeUnitPatch hbasic).holds h).size_eq
    exact ⟨hsize.le, fun _ ↦ hbasic⟩
  · have hone : ¬ c.toNat < 0x80 := by omega
    have htwo : ¬ c.toNat < 0x800 := by omega
    rw [codeUnitPatch, if_neg hone, if_neg htwo] at h
    obtain rfl := Option.some.inj h
    rw [utf8EncodeChar_four (not_lt.mp hbasic)]
    exact ⟨(by decide : 3 ≤ 4), fun hsame ↦ absurd hsame (by decide : ¬ 3 = 4)⟩

/-- A scalar value beyond the basic plane takes less than its four bytes. -/
theorem size_wideCharactersPatch {units : List ℕ} {text : List Char} {p : Patch}
    (hunits : units = text.map Char.toNat) (h : wideCharactersPatch units = some p) :
    p.size ≤ (utf8Form text).length ∧ (p.size = (utf8Form text).length → ∀ c ∈ text, c.toNat < 0x10000) := by
  induction units using putWideCharacters.induct generalizing text p with
  | case1 =>
    obtain rfl := List.map_eq_nil_iff.mp hunits.symm
    obtain rfl := Option.some.inj h
    exact ⟨le_rfl, fun _ c hc ↦ absurd hc List.not_mem_nil⟩
  | case2 c units hunit ih =>
    rw [wideCharactersPatch_unit units hunit] at h
    obtain ⟨first, rest, hfirst, hrest, rfl⟩ := both_eq_some h
    obtain ⟨char, text, rfl, rfl, rfl⟩ := List.map_eq_cons_iff.mp hunits.symm
    obtain ⟨hchar_le, hchar⟩ := size_codeUnitPatch hfirst
    obtain ⟨htext_le, htext⟩ := ih rfl hrest
    have hsize : (first.append rest).size = first.size + rest.size := rfl
    rw [hsize, utf8Form_cons, List.length_append]
    refine ⟨Nat.add_le_add hchar_le htext_le, fun hsame ↦ ?_⟩
    rw [List.forall_mem_cons]
    exact ⟨hchar (by omega), htext (by omega)⟩
  | case3 c units hunit hlow =>
    rw [wideCharactersPatch.eq_def] at h
    simp only [if_neg hunit, if_pos hlow] at h
    cases h
  | case4 c hunit hhigh =>
    rw [wideCharactersPatch.eq_def] at h
    simp only [if_neg hunit, if_neg hhigh] at h
    cases h
  | case5 c hunit hhigh cc units hother =>
    rw [wideCharactersPatch.eq_def] at h
    simp only [if_neg hunit, if_neg hhigh, if_pos hother] at h
    cases h
  | case6 c hunit hhigh cc units hpair ih =>
    rw [wideCharactersPatch_pair units hunit hhigh hpair] at h
    obtain ⟨first, rest, hfirst, hrest, rfl⟩ := both_eq_some h
    obtain ⟨char, text', rfl, rfl, htext'⟩ := List.map_eq_cons_iff.mp hunits.symm
    obtain ⟨char', text, rfl, rfl, rfl⟩ := List.map_eq_cons_iff.mp htext'
    have hbeyond : ¬ char.toNat < 0x10000 := by
      intro hbasic
      exact not_isSurrogate_toNat char ((and_surrogate_iff hbasic).mp (by omega))
    have hlength := congrArg List.length (utf8EncodeChar_four (not_lt.mp hbeyond))
    have hlength' := Char.utf8Size_pos char'
    have htext_le := (ih rfl hrest).1
    have hfour : first.size = 4 := by
      rw [← Option.some.inj hfirst]
      rfl
    have hsize : (first.append rest).size = first.size + rest.size := rfl
    rw [String.length_utf8EncodeChar] at hlength
    rw [hsize, hfour, utf8Form_cons, utf8Form_cons, List.length_append, List.length_append,
      String.length_utf8EncodeChar, String.length_utf8EncodeChar, hlength]
    change 4 + rest.size ≤ 4 + _ ∧ _
    exact ⟨by omega, fun hsame ↦ absurd hsame (by simp only [List.length_cons, List.length_nil]; omega)⟩

theorem utf16Form_of_basic {text : List Char} (h : ∀ c ∈ text, c.toNat < 0x10000) :
    utf16Form text = text.map Char.toNat := by
  induction text with
  | nil => rfl
  | cons c text ih =>
    rw [List.forall_mem_cons] at h
    rw [utf16Form_cons, utf16Units_of_lt h.1, List.singleton_append, ih h.2, List.map_cons]

/-- A text stored in 32-bit characters is written as its 8-bit form if and only if all of it is in the
basic plane. -/
theorem writeWideUTF8_ofScalars_iff {text : List Char} {w : DataWriter} (hshort : (utf8Form text).length < 0xFFFF)
    (hfits : w.dataPtr + (2 + (utf8Form text).length : ℕ) ≤ w.dataEnd) :
    wp (writeWideUTF8 (text.map Char.toNat)) (fun _ w' ↦ written w w' = encodeUTF8 (utf8Form text))
      (fun _ _ ↦ False) w ↔ ∀ c ∈ text, c.toNat < 0x10000 := by
  have hputs := puts_writeWideUTF8 (text.map Char.toNat) w
  constructor
  · intro hwrites
    obtain ⟨-, w', -, ⟨p, hp, rfl, -⟩, hwritten⟩ :=
      exists_ok_of_wp (wp_mono (wp_and hputs hwrites) (fun _ _ ↦ id) fun _ _ h ↦ h.2)
    have hlength := congrArg List.length hwritten
    rw [written, length_slice, length_encodeUTF8] at hlength
    have hend : (p.put w).dataPtr - w.dataPtr = p.size := add_sub_cancel_left w.dataPtr _
    rw [hend, Int.toNat_natCast] at hlength
    rw [wideUTF8Patch] at hp
    split at hp
    · cases hp
    split at hp
    · obtain ⟨q, hq, hlong⟩ := Option.bind_eq_some_iff.mp hp
      have hsize := size_withLength hlong
      exact (size_wideCharactersPatch rfl hq).2 (by omega)
    · rename_i hempty
      rw [not_not, List.length_eq_zero_iff, List.map_eq_nil_iff] at hempty
      rw [hempty]
      exact fun c hc ↦ absurd hc List.not_mem_nil
  · intro hbasic
    obtain ⟨p, hp, hholds⟩ := stores_wideUTF8Patch hshort
    rw [utf16Form_of_basic hbasic] at hp
    apply wp_mono hputs
    · rintro - w' ⟨p', hp', rfl, -⟩
      obtain rfl : p = p' := Option.some.inj (hp.symm.trans hp')
      exact hholds.slice_put w
    · intro error w' hover
      have hbehind := hover p hp
      rw [hholds.size_eq, length_encodeUTF8] at hbehind
      omega

/-- In a buffer of 16 bytes characters of one, two and three bytes are written, and one of four bytes behind the
first of them is not. -/
theorem writeWideUTF8_ofScalars_mixed :
    let w : DataWriter := ⟨fun _ ↦ 0, 0, 16, 0, 0, fun _ ↦ 0, fun _ ↦ false, fun _ ↦ 0, []⟩
    let mixed := [Char.ofNat 0x41, Char.ofNat 0xE9, Char.ofNat 0x20AC]
    let beyond := [Char.ofNat 0x41, Char.ofNat 0x1F600]
    wp (writeWideUTF8 (mixed.map Char.toNat)) (fun _ w' ↦ written w w' = encodeUTF8 (utf8Form mixed))
        (fun _ _ ↦ False) w ∧
      ¬ wp (writeWideUTF8 (beyond.map Char.toNat)) (fun _ w' ↦ written w w' = encodeUTF8 (utf8Form beyond))
        (fun _ _ ↦ False) w := by
  intro w mixed beyond
  constructor
  · have hshort : (utf8Form mixed).length < 0xFFFF := by decide
    have hfits : w.dataPtr + (2 + (utf8Form mixed).length : ℕ) ≤ w.dataEnd := by decide
    rw [writeWideUTF8_ofScalars_iff hshort hfits]
    simp [mixed]
  · have hshort : (utf8Form beyond).length < 0xFFFF := by decide
    have hfits : w.dataPtr + (2 + (utf8Form beyond).length : ℕ) ≤ w.dataEnd := by decide
    rw [writeWideUTF8_ofScalars_iff hshort hfits]
    simp [beyond]

/-- The scalar value 0x1F600 is written as three bytes. -/
theorem writeWideUTF8_truncates :
    ¬ ∀ (text : List Char) (w : DataWriter), text.length < 0xFFFF → (utf8Form text).length < 0xFFFF →
      w.dataPtr + (2 + (utf8Form text).length : ℕ) ≤ w.dataEnd →
      wp (writeWideUTF8 (text.map Char.toNat)) (fun _ w' ↦ written w w' = encodeUTF8 (utf8Form text))
        (fun _ _ ↦ False) w := by
  intro hall
  let w : DataWriter := ⟨fun _ ↦ 0, 0, 16, 0, 0, fun _ ↦ 0, fun _ ↦ false, fun _ ↦ 0, []⟩
  have hwrites := hall [Char.ofNat 0x1F600] w (by decide) (by decide) (by decide)
  have hreturns : writeWideUTF8 [0x1F600] w = .ok () (finalState (writeWideUTF8 [0x1F600]) w) :=
    eq_ok_of_returns (by decide +kernel)
  change wp (writeWideUTF8 [0x1F600]) _ _ w at hwrites
  rw [wp_ok hreturns] at hwrites
  exact absurd hwrites (by decide +kernel)

end DxApi.Reader
