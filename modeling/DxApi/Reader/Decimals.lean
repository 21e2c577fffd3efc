import DxApi.Reader.Packed

/-!
# Decimals

The header of a decimal has a sign, the number of bytes of the mantissa and an exponent, and four of
its values are used for something else: null, the infinities, and a floating-point number that
follows. The largest exponent with a short positive mantissa gives one of these four as well. A
mantissa of more than seven bytes does not fit at all: `putDecimal(value, precision)` writes the
floating-point number for it, and the mantissa after it.

What the floating-point unit makes of a value is a parameter here: the mantissa that the value is
rounded to, or the fraction that is found for it.
-/

namespace DxApi.Reader

open Exec ByteMemory ByteOrder Writer

variable {cls : ReaderClass}

/-! ## The calls, with the result of the scaling -/

/-- `putDecimal(value, precision)` of a value that is scaled to `lv`. -/
def putDecimalScaledTo (lv : ℕ) (value : Float) (precision : ℕ) : WriterM Unit :=
  match specialDecimal value with
  | some byte => putByte byte
  | none => putRoundedDecimal value (stripZeros precision lv).1 (stripZeros precision lv).2

/-- `putDecimal(value)` of a value for which `fraction` is found. -/
def putDecimalFoundAs (fraction : Option (ℕ × ℕ)) (value : Float) : WriterM Unit :=
  match specialDecimal value with
  | some byte => putByte byte
  | none =>
    match fraction with
    | some (mantissa, exp) => putCompressedDecimal (value < 0) mantissa exp
    | none => putUncompressedDecimal value

theorem putDecimalOfPrecision_eq (value : Float) (precision : ℕ) :
    putDecimalOfPrecision value precision =
      putDecimalScaledTo (value.abs * pow10d precision + 0.5).floor.toUInt64.toNat value precision := rfl

theorem putDecimal_eq (value : Float) :
    putDecimal value = putDecimalFoundAs (decimalFraction value.abs 15 0) value := rfl

/-! ## Reading -/

/-- How many bytes follow a header. -/
def decimalSize (header : ℕ) : ℕ :=
  if header = 0x1F ∨ header = 0x2F ∨ header = 0x3F then 0 else if header = 0x0F then 8 else header / 0x10 % 8

/-- What a header and the bytes behind it are read as. -/
def decimalOf (header : ℕ) (data : List UInt8) : Decimal :=
  if header = 0x1F then .null
  else if header = 0x2F then .negativeInfinity
  else if header = 0x3F then .positiveInfinity
  else if header = 0x0F then .float (ofBigEndian data)
  else if header / 0x10 % 8 = 0 then .zero
  else .fraction (header / 0x80 = 1) (ofLittleEndian data) (header % 0x10)

theorem decimalSize_le (header : ℕ) : decimalSize header ≤ 8 := by
  rw [decimalSize]
  split_ifs <;> omega

theorem decodes_getDecimal {header : UInt8} {data : List UInt8} (hdata : data.length = decimalSize header.toNat) :
    Decodes cls (getDecimal cls) (header :: data) (decimalOf header.toNat data) := by
  apply decodes_header
  rw [decimalSize] at hdata
  rw [getDecimalOf, decimalOf]
  generalize header.toNat = h at hdata
  by_cases hnull : h = 0x1F
  · rw [if_pos (.inl hnull), List.length_eq_zero_iff] at hdata
    rw [if_pos hnull, if_pos hnull, hdata]
    exact decodes_pure _
  by_cases hnegative : h = 0x2F
  · rw [if_pos (.inr (.inl hnegative)), List.length_eq_zero_iff] at hdata
    rw [if_neg hnull, if_neg hnull, if_pos hnegative, if_pos hnegative, hdata]
    exact decodes_pure _
  by_cases hpositive : h = 0x3F
  · rw [if_pos (.inr (.inr hpositive)), List.length_eq_zero_iff] at hdata
    rw [if_neg hnull, if_neg hnull, if_neg hnegative, if_neg hnegative, if_pos hpositive, if_pos hpositive, hdata]
    exact decodes_pure _
  simp only [hnull, hnegative, hpositive, or_self, if_false] at hdata ⊢
  by_cases hfloat : h = 0x0F
  · rw [if_pos hfloat] at hdata
    simp only [hfloat, if_true]
    exact (decodes_loadBE_bytes (by decide) hdata).map Decimal.float
  · simp only [hfloat, if_false] at hdata ⊢
    by_cases hzero : h / 0x10 % 8 = 0
    · rw [hzero, List.length_eq_zero_iff] at hdata
      simp only [hzero, if_true, hdata]
      exact decodes_pure _
    · simp only [hzero, if_false]
      exact (decodes_loadLE_bytes (by omega) hdata).map fun x ↦ Decimal.fraction (h / 0x80 = 1) x (h % 0x10)

theorem readsField_skipDecimal {header : UInt8} {data : List UInt8}
    (hdata : data.length = decimalSize header.toNat) : ReadsField skipDecimal (header :: data) () := by
  apply readsField_of_decodes ()
  intro cls
  apply decodes_header
  rw [decimalSize] at hdata
  generalize header.toNat = h at hdata
  by_cases hspecial : h = 0x1F ∨ h = 0x2F ∨ h = 0x3F
  · rw [if_pos hspecial, List.length_eq_zero_iff] at hdata
    rw [if_pos hspecial, hdata]
    exact decodes_pure _
  · rw [if_neg hspecial] at hdata ⊢
    by_cases hfloat : h = 0x0F
    · rw [if_pos hfloat] at hdata
      have hskip := @decodes_skip cls data
      rw [hdata] at hskip
      rw [if_pos hfloat]
      exact hskip
    · rw [if_neg hfloat] at hdata ⊢
      rw [← hdata]
      exact decodes_skip data

/-! ## One complete encoding -/

/-- What stands for a meaning: itself, and zero for every fraction that is zero and not negative. -/
def Decimal.Stands (meant found : Decimal) : Prop :=
  found = meant ∨ (found = .zero ∧ ∃ exp, meant = .fraction false 0 exp)

/-- The bytes are read and skipped whole, and read as what was meant. -/
def DecimalFramed (meant : Decimal) (data : List UInt8) : Prop :=
  ∃ found, meant.Stands found ∧ ReadsField (fun cls ↦ unlessEnd .null (getDecimal cls)) data found ∧
    ReadsField readDecimal data found.value ∧ ReadsField skipDecimal data ()

theorem readsField_getDecimal {header : UInt8} {data : List UInt8} (hdata : data.length = decimalSize header.toNat) :
    ReadsField (fun cls ↦ unlessEnd .null (getDecimal cls)) (header :: data) (decimalOf header.toNat data) :=
  readsField_of_decodes _ fun _ ↦ decodes_getDecimal hdata

/-- A header and what follows it are one encoding if and only if there are as many bytes as it says. -/
theorem decimalFramed_cons_iff {meant : Decimal} {header : UInt8} {data : List UInt8} (hsmall : data.length < 100) :
    DecimalFramed meant (header :: data) ↔
      data.length = decimalSize header.toNat ∧ meant.Stands (decimalOf header.toNat data) := by
  constructor
  · rintro ⟨found, hstands, hread, -, -⟩
    obtain ⟨header', rest, hsame, hrest, rfl⟩ := hread.exists_header (fun header ↦ decimalSize_le header.toNat)
      (fun _ _ ↦ readsField_getDecimal) (by rw [List.length_cons]; omega)
    obtain ⟨rfl, rfl⟩ := List.cons.inj hsame
    exact ⟨hrest, hstands⟩
  · rintro ⟨hdata, hstands⟩
    have hread := readsField_getDecimal hdata
    exact ⟨_, hstands, hread, hread.map Decimal.value, readsField_skipDecimal hdata⟩

/-! ## Writing -/

/-- The header of a fraction. -/
def decimalHeader (isNegative : Bool) (mantissa exp : ℕ) : ℕ :=
  isNegative.toNat * 0x80 + bytesNeeded mantissa * 0x10 + exp

/-- The bytes of a fraction. -/
def encodeFraction (isNegative : Bool) (mantissa exp : ℕ) : List UInt8 :=
  UInt8.ofNat (decimalHeader isNegative mantissa exp) :: littleEndian (bytesNeeded mantissa) mantissa

/-- The fractions that have an encoding: at most seven bytes, no negative zero, and not one of the
headers that are used for special values. -/
def HasEncoding (isNegative : Bool) (mantissa exp : ℕ) : Prop :=
  mantissa < 2 ^ 56 ∧ (mantissa = 0 → isNegative = false) ∧
    ¬ (isNegative = false ∧ exp = 15 ∧ mantissa < 2 ^ 24)

theorem holds_compressedDecimalPatch (isNegative : Bool) {mantissa : ℕ} (exp : ℕ) (hmantissa : mantissa < 2 ^ 64) :
    (compressedDecimalPatch isNegative mantissa exp).Holds (encodeFraction isNegative mantissa exp) :=
  holds_variablePatch (fun numBytes ↦ isNegative.toNat * 0x80 + numBytes * 0x10 + exp) hmantissa

theorem bytesNeeded_eq_zero_iff {value : ℕ} : bytesNeeded value = 0 ↔ value = 0 := by
  rw [← Nat.le_zero, bytesNeeded_le_iff, pow_zero, Nat.lt_one_iff]

/-- A header that is none of the special ones says what was put into it. -/
theorem decimalSize_header {isNegative : Bool} {n exp : ℕ} (hn : n ≤ 7) (hexp : exp < 16)
    (hplain : ¬ (isNegative = false ∧ exp = 15 ∧ n ≤ 3)) :
    decimalSize (isNegative.toNat * 0x80 + n * 0x10 + exp) = n := by
  have hspecial : ¬ (isNegative.toNat * 0x80 + n * 0x10 + exp = 0x1F ∨
      isNegative.toNat * 0x80 + n * 0x10 + exp = 0x2F ∨ isNegative.toNat * 0x80 + n * 0x10 + exp = 0x3F) := by
    cases isNegative <;> simp at hplain ⊢ <;> omega
  have hfloat : ¬ isNegative.toNat * 0x80 + n * 0x10 + exp = 0x0F := by
    cases isNegative <;> simp at hplain ⊢ <;> omega
  rw [decimalSize, if_neg hspecial, if_neg hfloat]
  cases isNegative <;> simp <;> omega

theorem decimalOf_header {isNegative : Bool} {n exp : ℕ} (hn : n ≤ 7) (hexp : exp < 16)
    (hplain : ¬ (isNegative = false ∧ exp = 15 ∧ n ≤ 3)) (data : List UInt8) :
    decimalOf (isNegative.toNat * 0x80 + n * 0x10 + exp) data =
      if n = 0 then .zero else .fraction isNegative (ofLittleEndian data) exp := by
  have hsize : (isNegative.toNat * 0x80 + n * 0x10 + exp) / 0x10 % 8 = n := by
    cases isNegative <;> simp <;> omega
  have hsign : decide ((isNegative.toNat * 0x80 + n * 0x10 + exp) / 0x80 = 1) = isNegative := by
    cases isNegative <;> simp <;> omega
  have hlast : (isNegative.toNat * 0x80 + n * 0x10 + exp) % 0x10 = exp := by omega
  have hspecial : ∀ k ≤ 3, ¬ isNegative.toNat * 0x80 + n * 0x10 + exp = k * 0x10 + 0x0F := by
    intro k hk hheader
    cases isNegative <;> simp at hplain hheader <;> omega
  rw [decimalOf, hsize, hsign, hlast, if_neg (hspecial 1 (by decide)), if_neg (hspecial 2 (by decide)),
    if_neg (hspecial 3 (by decide)), if_neg (hspecial 0 (by decide))]

/-- A short positive mantissa with the largest exponent has a special header. -/
theorem decimalSize_special {n : ℕ} (hn : n ≤ 3) : decimalSize (false.toNat * 0x80 + n * 0x10 + 15) ≠ n := by
  have hcases : n = 0 ∨ n = 1 ∨ n = 2 ∨ n = 3 := by omega
  rcases hcases with rfl | rfl | rfl | rfl <;> decide

/-- Eight bytes are too many for three bits: the header is another one, with other bytes. -/
theorem not_stands_of_eight {isNegative : Bool} {mantissa exp : ℕ} (data : List UInt8)
    (hsize : decimalSize ((isNegative.toNat * 0x80 + 8 * 0x10 + exp) % 2 ^ 8) = 8) :
    ¬ (Decimal.fraction isNegative mantissa exp).Stands
      (decimalOf ((isNegative.toNat * 0x80 + 8 * 0x10 + exp) % 2 ^ 8) data) := by
  have hfloat : (isNegative.toNat * 0x80 + 8 * 0x10 + exp) % 2 ^ 8 = 0x0F := by
    rw [decimalSize] at hsize
    split_ifs at hsize with hspecial hfloat
    · exact hfloat
    · omega
  rw [hfloat]
  simp [decimalOf, Decimal.Stands]

theorem encodeFraction_framed_iff (isNegative : Bool) {mantissa exp : ℕ} (hmantissa : mantissa < 2 ^ 64)
    (hexp : exp < 16) :
    DecimalFramed (.fraction isNegative mantissa exp) (encodeFraction isNegative mantissa exp) ↔
      HasEncoding isNegative mantissa exp := by
  have hvalue := ofLittleEndian_littleEndian (lt_bytesNeeded mantissa)
  have height : bytesNeeded mantissa ≤ 8 := bytesNeeded_le_iff.mpr hmantissa
  have hseven : bytesNeeded mantissa ≤ 7 ↔ mantissa < 2 ^ 56 := bytesNeeded_le_iff
  have hthree : bytesNeeded mantissa ≤ 3 ↔ mantissa < 2 ^ 24 := bytesNeeded_le_iff
  have hzero : bytesNeeded mantissa = 0 ↔ mantissa = 0 := bytesNeeded_eq_zero_iff
  rw [encodeFraction, decimalFramed_cons_iff (by rw [length_littleEndian]; omega), length_littleEndian,
    UInt8.toNat_ofNat', HasEncoding, ← hseven, ← hthree, decimalHeader]
  by_cases hlong : bytesNeeded mantissa = 8
  · have hnot : ¬ bytesNeeded mantissa ≤ 7 := by omega
    rw [hlong]
    apply iff_of_false
    · exact fun h ↦ not_stands_of_eight _ h.1.symm h.2
    · exact fun h ↦ absurd h.1 (by decide)
  have hfits : bytesNeeded mantissa ≤ 7 := by omega
  have hheader : isNegative.toNat * 0x80 + bytesNeeded mantissa * 0x10 + exp < 2 ^ 8 := by
    have hsign := isNegative.toNat_le
    omega
  rw [Nat.mod_eq_of_lt hheader]
  by_cases hplain : isNegative = false ∧ exp = 15 ∧ bytesNeeded mantissa ≤ 3
  · obtain ⟨rfl, rfl, hshort⟩ := hplain
    apply iff_of_false
    · exact fun h ↦ decimalSize_special hshort h.1.symm
    · exact fun h ↦ h.2.2 ⟨rfl, rfl, hshort⟩
  · rw [decimalSize_header hfits hexp hplain, decimalOf_header hfits hexp hplain, hvalue]
    simp only [hfits, hplain, not_false_eq_true, true_and, and_true]
    by_cases hnone : mantissa = 0
    · rw [if_pos (hzero.mpr hnone), hnone]
      simp [Decimal.Stands]
    · rw [if_neg (mt hzero.mp hnone)]
      exact iff_of_true (.inl rfl) fun h ↦ absurd h hnone

theorem exists_uncompressedDecimalPatch (value : Float) :
    ∃ p, uncompressedDecimalPatch value = some p ∧ p.Holds (0x0F :: bigEndian 8 value.toBits.toNat) := by
  have hword : Writer.word 8 value.toBits.toNat = value.toBits.toNat := by
    have hlt := value.toBits.toNat_lt
    rw [Writer.word]
    omega
  have hholds := (Patch.holds_byte 0x0F).append (Patch.holds_wordPatch 8 value.toBits.toNat)
  rw [hword] at hholds
  exact ⟨_, rfl, hholds⟩

theorem uncompressed_framed (value : Float) :
    DecimalFramed (.float value.toBits.toNat) (0x0F :: bigEndian 8 value.toBits.toNat) := by
  have hbits := @ofBigEndian_bigEndian 8 _ value.toBits.toNat_lt
  have hsize : (bigEndian 8 value.toBits.toNat).length = 8 := length_bigEndian 8 _
  rw [decimalFramed_cons_iff (by omega), hsize]
  refine ⟨rfl, .inl ?_⟩
  have hheader : decimalOf 0x0F (bigEndian 8 value.toBits.toNat) =
      .float (ofBigEndian (bigEndian 8 value.toBits.toNat)) := rfl
  rw [hbits] at hheader
  exact hheader

/-- The number itself with a fraction behind it is no encoding of anything. -/
theorem not_framed_of_both (value : Float) (meant : Decimal) (isNegative : Bool) (mantissa exp : ℕ)
    (hmantissa : mantissa < 2 ^ 64) :
    ¬ DecimalFramed meant ((0x0F :: bigEndian 8 value.toBits.toNat) ++ encodeFraction isNegative mantissa exp) := by
  have hcount : bytesNeeded mantissa ≤ 8 := bytesNeeded_le_iff.mpr hmantissa
  have hlength : (bigEndian 8 value.toBits.toNat ++ encodeFraction isNegative mantissa exp).length =
      8 + (bytesNeeded mantissa + 1) := by
    rw [List.length_append, length_bigEndian, encodeFraction, List.length_cons, length_littleEndian]
  rw [List.cons_append, decimalFramed_cons_iff (by omega), hlength]
  intro h
  have hsize : decimalSize (0x0F : UInt8).toNat = 8 := rfl
  rw [hsize] at h
  omega

/-- What the byte of a special value means. -/
def meantSpecial (byte : UInt8) : Decimal :=
  if byte = 0 then .zero else if byte = 0x1F then .null else if byte = 0x2F then .negativeInfinity
  else .positiveInfinity

theorem specialDecimal_cases {value : Float} {byte : UInt8} (h : specialDecimal value = some byte) :
    byte = 0 ∨ byte = 0x1F ∨ byte = 0x2F ∨ byte = 0x3F := by
  rw [specialDecimal] at h
  split_ifs at h <;> simp_all

theorem special_framed {value : Float} {byte : UInt8} (h : specialDecimal value = some byte) :
    DecimalFramed (meantSpecial byte) [byte] := by
  rw [decimalFramed_cons_iff (by decide)]
  rcases specialDecimal_cases h with rfl | rfl | rfl | rfl <;> exact ⟨rfl, .inl rfl⟩

/-- What a call means that rounds a value to `mantissa` and `exp`. -/
def meantRounded (value : Float) (mantissa exp : ℕ) : Decimal :=
  match specialDecimal value with
  | some byte => meantSpecial byte
  | none => if mantissa / 2 ^ 56 ≠ 0 then .float value.toBits.toNat else .fraction (value < 0) mantissa exp

/-- What a call means that finds a fraction for a value, or none. -/
def meantFound (value : Float) (fraction : Option (ℕ × ℕ)) : Decimal :=
  match specialDecimal value with
  | some byte => meantSpecial byte
  | none =>
    match fraction with
    | some (mantissa, exp) => .fraction (value < 0) mantissa exp
    | none => .float value.toBits.toNat

theorem stripZeros_le (exp lv : ℕ) : (stripZeros exp lv).1 ≤ lv ∧ (stripZeros exp lv).2 ≤ exp := by
  induction exp, lv using stripZeros.induct with
  | case1 exp lv hzero ih =>
    rw [stripZeros, if_pos hzero]
    exact ⟨ih.1.trans (Nat.div_le_self lv 10), ih.2.trans (Nat.le_succ _)⟩
  | case2 exp lv hlast =>
    rw [stripZeros, if_neg hlast]
    exact ⟨le_rfl, le_rfl⟩
  | case3 exp lv hsmall =>
    rw [stripZeros]
    · exact ⟨le_rfl, le_rfl⟩
    · exact hsmall

/-- What a call writes is one encoding of what is meant if and only if the condition holds. -/
def FramesIff (program : WriterM Unit) (meant : Decimal) (condition : Prop) (w : DataWriter) : Prop :=
  wp program (fun _ w' ↦ DecimalFramed meant (written w w') ↔ condition) (fun _ _ ↦ True) w

theorem framesIff_of_holds {program : WriterM Unit} {patch : Patch} {data : List UInt8} {meant : Decimal}
    {condition : Prop} {w : DataWriter} (hputs : PutsAt (some patch) program w) (hholds : patch.Holds data)
    (hdata : DecimalFramed meant data ↔ condition) : FramesIff program meant condition w := by
  apply wp_mono (wp_of_holds (fun data ↦ DecimalFramed meant data ↔ condition) hputs hholds le_rfl hdata)
  · exact fun _ _ h ↦ h
  · exact fun _ _ _ ↦ trivial

theorem putByte_framed {value : Float} {byte : UInt8} (h : specialDecimal value = some byte) {condition : Prop}
    (hcondition : condition) (w : DataWriter) : FramesIff (putByte byte) (meantSpecial byte) condition w :=
  framesIff_of_holds (puts_putByte byte w) (Patch.holds_byte byte) (iff_of_true (special_framed h) hcondition)

theorem putCompressedDecimal_framed (isNegative : Bool) {mantissa exp : ℕ} (hmantissa : mantissa < 2 ^ 64)
    (hexp : exp < 16) (w : DataWriter) :
    FramesIff (putCompressedDecimal isNegative mantissa exp) (.fraction isNegative mantissa exp)
      (HasEncoding isNegative mantissa exp) w :=
  framesIff_of_holds (puts_putCompressedDecimal isNegative mantissa exp w)
    (holds_compressedDecimalPatch isNegative exp hmantissa) (encodeFraction_framed_iff isNegative hmantissa hexp)

theorem putRoundedDecimal_framed (value : Float) {mantissa exp : ℕ} (hmantissa : mantissa < 2 ^ 64)
    (hexp : exp < 16) (w : DataWriter) :
    FramesIff (putRoundedDecimal value mantissa exp)
      (if mantissa / 2 ^ 56 ≠ 0 then .float value.toBits.toNat else .fraction (value < 0) mantissa exp)
      (HasEncoding (value < 0) mantissa exp) w := by
  have hputs := puts_putRoundedDecimal value mantissa exp w
  have hfraction := holds_compressedDecimalPatch (value < 0) exp hmantissa
  rw [roundedDecimalPatch] at hputs
  by_cases hlong : mantissa / 2 ^ 56 ≠ 0
  · obtain ⟨p, hp, hholds⟩ := exists_uncompressedDecimalPatch value
    rw [if_pos hlong, hp] at hputs
    rw [if_pos hlong]
    apply framesIff_of_holds hputs (hholds.append hfraction)
    apply iff_of_false (not_framed_of_both value _ _ mantissa exp hmantissa)
    intro h
    exact hlong (Nat.div_eq_of_lt h.1)
  · rw [if_neg hlong] at hputs ⊢
    exact framesIff_of_holds hputs hfraction (encodeFraction_framed_iff _ hmantissa hexp)

/-- A call writes one encoding of its value if and only if what it means has one: whatever mantissa the
value is rounded to, and whatever fraction is found for it. -/
theorem putDecimal_framed_iff (value : Float) (w : DataWriter) :
    (∀ (lv : UInt64) (precision : Fin 16),
      let fraction := stripZeros precision lv.toNat
      FramesIff (putDecimalScaledTo lv.toNat value precision) (meantRounded value fraction.1 fraction.2)
        (specialDecimal value = none → HasEncoding (value < 0) fraction.1 fraction.2) w) ∧
    (∀ found : Option (UInt64 × Fin 15),
      let fraction := found.map fun fraction ↦ (fraction.1.toNat, fraction.2.val)
      FramesIff (putDecimalFoundAs fraction value) (meantFound value fraction)
        (specialDecimal value = none → ∀ mantissa exp, fraction = some (mantissa, exp) →
          HasEncoding (value < 0) mantissa exp) w) := by
  constructor
  · intro lv precision
    have hle := stripZeros_le precision lv.toNat
    have hlt := lv.toNat_lt
    simp only [putDecimalScaledTo, meantRounded]
    cases hspecial : specialDecimal value with
    | some byte => exact putByte_framed hspecial (fun h ↦ absurd h (Option.some_ne_none byte)) w
    | none =>
      simp only [true_implies]
      exact putRoundedDecimal_framed value (by omega) (by omega) w
  · intro found
    simp only [putDecimalFoundAs, meantFound]
    cases hspecial : specialDecimal value with
    | some byte => exact putByte_framed hspecial (fun h ↦ absurd h (Option.some_ne_none byte)) w
    | none =>
      simp only [true_implies]
      cases found with
      | none =>
        obtain ⟨p, hp, hholds⟩ := exists_uncompressedDecimalPatch value
        have hputs := puts_putUncompressedDecimal value w
        rw [hp] at hputs
        exact framesIff_of_holds hputs hholds (iff_of_true (uncompressed_framed value) (by simp))
      | some fraction =>
        have hmantissa := fraction.1.toNat_lt
        have hexp := fraction.2.isLt
        have hframed := putCompressedDecimal_framed (value < 0) hmantissa (by omega : fraction.2.val < 16) w
        simpa using hframed

/-- 1.234567e-9 with 15 decimal places has the header of positive infinity. -/
theorem decimal_taken_for_infinity :
    ¬ ∀ (value : Float) (lv : UInt64) (precision : Fin 16) (w : DataWriter),
      wp (putDecimalScaledTo lv.toNat value precision)
        (fun _ w' ↦ DecimalFramed
          (meantRounded value (stripZeros precision lv.toNat).1 (stripZeros precision lv.toNat).2) (written w w'))
        (fun _ _ ↦ True) w := by
  intro hall
  let value : Float := 1.234567e-9
  let w : DataWriter := ⟨fun _ ↦ 0, 0, 16, 0, 0, fun _ ↦ 0, fun _ ↦ false, fun _ ↦ 0, []⟩
  have hspecial : specialDecimal value = none := by decide +kernel
  have hsign : decide (value < 0) = false := by decide +kernel
  have hstrip : stripZeros 15 1234567 = (1234567, 15) := by decide
  have hframed : wp (putDecimalScaledTo 1234567 value 15)
      (fun _ w' ↦ DecimalFramed (meantRounded value (stripZeros 15 1234567).1 (stripZeros 15 1234567).2)
        (written w w')) (fun _ _ ↦ True) w := hall value 1234567 15 w
  have hcondition := @putRoundedDecimal_framed value 1234567 15 (by decide) (by decide) w
  simp only [putDecimalScaledTo, meantRounded, hspecial, hstrip] at hframed
  have hreturns : returns (putRoundedDecimal value 1234567 15) w = true := by decide +kernel
  have hboth := wp_and hframed hcondition
  rw [wp_ok (eq_ok_of_returns hreturns)] at hboth
  have hencoding := hboth.2.mp hboth.1
  rw [hsign] at hencoding
  exact hencoding.2.2 ⟨rfl, rfl, by decide⟩

end DxApi.Reader
