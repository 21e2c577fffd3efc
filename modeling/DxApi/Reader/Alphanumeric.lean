import DxApi.Reader.Trips

/-!
# Alphanumeric numbers

An alphanumeric value of up to ten characters is a number: its length in the top bits, then six bits
for each character, then zeros. Only the bytes up to the last character are sent. The reader clears
what it has loaded behind them with a mask of 64 bits, of which a number of 32 bits meets the low
half. The two conversions between strings and such numbers are switches whose cases fall through.
-/

namespace DxApi.Reader

open Exec ByteMemory ByteOrder Writer

/-- The types of packed alphanumeric values. -/
inductive AlphanumericType
  | int32
  | int64

def AlphanumericType.size : AlphanumericType → ℕ
  | int32 => 4
  | int64 => 8

/-- The null sentinel. -/
def AlphanumericType.null (type : AlphanumericType) : ℤ := -2 ^ (8 * type.size - 1)

variable {cls : ReaderClass} {size fieldSize word : ℕ}

/-! ## Sizes -/

theorem sizeCodes_eq (hfield : fieldSize ≤ 10) : sizeCodes fieldSize = fieldSize + 1 :=
  Nat.mod_eq_of_lt (by omega)

theorem sizeBits_pos (hfield : fieldSize ≤ 10) : 0 < sizeBits fieldSize := by
  rw [sizeBits, sizeCodes_eq hfield, Nat.size_pos]
  exact Nat.succ_pos fieldSize

theorem sizeBits_le (hfield : fieldSize ≤ 10) : sizeBits fieldSize ≤ 4 := by
  rw [sizeBits, sizeCodes_eq hfield, Nat.size_le]
  omega

/-! ## What is a number -/

/-- The length that the top bits of a number are. -/
def lengthField (size fieldSize word : ℕ) : ℕ := word / 2 ^ (8 * size - sizeBits fieldSize)

/-- The bits up to the last character. -/
def bitsUsed (size fieldSize word : ℕ) : ℕ := sizeBits fieldSize + 6 * lengthField size fieldSize word

/-- The bytes up to the last character. -/
def bytesUsed (size fieldSize word : ℕ) : ℕ := (bitsUsed size fieldSize word + 7) / 8

/-- A number of `size` bytes that holds a value of the field: as long as the field allows, all of its
characters in the number, and nothing behind them. -/
structure IsPacked (size fieldSize word : ℕ) : Prop where
  length_le : lengthField size fieldSize word ≤ fieldSize
  characters_fit : bitsUsed size fieldSize word ≤ 8 * size
  padding : word % 2 ^ (8 * size - bitsUsed size fieldSize word) = 0

theorem bytesUsed_pos (size word : ℕ) (hfield : fieldSize ≤ 10) : 0 < bytesUsed size fieldSize word := by
  have hpositive := sizeBits_pos hfield
  rw [bytesUsed, bitsUsed]
  omega

theorem IsPacked.bytesUsed_le (h : IsPacked size fieldSize word) : bytesUsed size fieldSize word ≤ size := by
  have hfit := h.characters_fit
  rw [bytesUsed]
  omega

/-- The bytes that are sent are all of the number. -/
theorem IsPacked.mul_div (h : IsPacked size fieldSize word) :
    word / 256 ^ (size - bytesUsed size fieldSize word) * 256 ^ (size - bytesUsed size fieldSize word) = word := by
  have hfit := h.characters_fit
  have hpow : 256 ^ (size - bytesUsed size fieldSize word) = 2 ^ (8 * (size - bytesUsed size fieldSize word)) := by
    rw [Nat.pow_mul]
  have hdvd : 2 ^ (8 * (size - bytesUsed size fieldSize word)) ∣ 2 ^ (8 * size - bitsUsed size fieldSize word) := by
    apply Nat.pow_dvd_pow
    rw [bytesUsed]
    omega
  rw [hpow]
  exact Nat.div_mul_cancel (hdvd.trans (Nat.dvd_of_mod_eq_zero h.padding))

/-- The bytes of a number. -/
def encodeAlphanumericInt (size fieldSize word : ℕ) : List UInt8 :=
  bigEndian (bytesUsed size fieldSize word) (word / 256 ^ (size - bytesUsed size fieldSize word))

theorem length_encodeAlphanumericInt :
    (encodeAlphanumericInt size fieldSize word).length = bytesUsed size fieldSize word := length_bigEndian _ _

/-- The length is in the first byte. -/
theorem exists_encodeAlphanumericInt (hfield : fieldSize ≤ 10) (h : IsPacked size fieldSize word)
    (hword : word < 256 ^ size) :
    ∃ header data, encodeAlphanumericInt size fieldSize word = header :: data ∧
      header.toNat >>> (8 - sizeBits fieldSize) = lengthField size fieldSize word := by
  obtain ⟨count, hcount⟩ := Nat.exists_eq_succ_of_ne_zero (bytesUsed_pos size word hfield).ne'
  have hle := h.bytesUsed_le
  have hbits := sizeBits_le hfield
  have hfirst : word / 256 ^ (size - (count + 1)) / 256 ^ count = word / 2 ^ (8 * size - 8) := by
    have hpow : 256 ^ (size - (count + 1)) * 256 ^ count = 2 ^ (8 * size - 8) := by
      rw [← pow_add, show 256 = 2 ^ 8 by rfl, ← pow_mul]
      congr 1
      omega
    rw [Nat.div_div_eq_div_mul, hpow]
  have hbyte : word / 2 ^ (8 * size - 8) < 2 ^ 8 := by
    apply Nat.div_lt_of_lt_mul
    rw [← pow_add]
    have hsize : 8 * size - 8 + 8 = 8 * size := by omega
    rwa [hsize, Nat.pow_mul]
  refine ⟨UInt8.ofNat (word / 256 ^ (size - (count + 1)) / 256 ^ count),
    bigEndian count (word / 256 ^ (size - (count + 1))), ?_, ?_⟩
  · rw [encodeAlphanumericInt, hcount, Nat.succ_eq_add_one, bigEndian_succ]
  · rw [hfirst, UInt8.toNat_ofNat', Nat.mod_eq_of_lt hbyte, Nat.shiftRight_eq_div_pow, Nat.div_div_eq_div_mul,
      ← pow_add, lengthField]
    congr 2
    omega

/-! ## The mask -/

theorem testBit_highByteMask64 (count i : ℕ) :
    (highByteMask64 count).testBit i = (decide (64 - 8 * count ≤ i) && decide (i < 64)) := by
  have hpositive := Nat.two_pow_pos (64 - 8 * count)
  have hmask : highByteMask64 count = 2 ^ 64 - (2 ^ (64 - 8 * count) - 1 + 1) := by
    rw [highByteMask64, Nat.sub_add_cancel hpositive]
  have hlt : 2 ^ (64 - 8 * count) - 1 < 2 ^ 64 := by
    have hle : 2 ^ (64 - 8 * count) ≤ 2 ^ 64 := Nat.pow_le_pow_right (by decide) (Nat.sub_le _ _)
    omega
  rw [hmask, Nat.testBit_two_pow_sub_succ hlt, Nat.testBit_two_pow_sub_one]
  by_cases hlow : i < 64 - 8 * count
  · have hnot : ¬ 64 - 8 * count ≤ i := not_le.mpr hlow
    simp [hlow, hnot]
  · simp [hlow, not_lt.mp hlow]

/-- A number of 64 bits without its low bytes. -/
theorem and_highByteMask64 (count : ℕ) {x : ℕ} (hx : x < 2 ^ 64) :
    highByteMask64 count &&& x = x / 2 ^ (64 - 8 * count) * 2 ^ (64 - 8 * count) := by
  apply Nat.eq_of_testBit_eq
  intro i
  rw [Nat.testBit_and, testBit_highByteMask64, Nat.testBit_mul_two_pow, Nat.testBit_div_two_pow]
  by_cases hlow : 64 - 8 * count ≤ i
  · have hindex : i - (64 - 8 * count) + (64 - 8 * count) = i := by omega
    by_cases hhigh : i < 64
    · simp [hlow, hhigh, hindex]
    · have hzero : x.testBit i = false := Nat.testBit_lt_two_pow
        (hx.trans_le (Nat.pow_le_pow_right (by decide) (not_lt.mp hhigh)))
      simp [hlow, hindex, hzero]
  · simp [hlow]

/-- A mask that keeps at most four bytes clears all of a number of 32 bits. -/
theorem and_highByteMask64_of_lt {count x : ℕ} (hcount : count ≤ 4) (hx : x < 2 ^ 32) :
    highByteMask64 count &&& x = 0 := by
  have hpow : 2 ^ 32 ≤ 2 ^ (64 - 8 * count) := Nat.pow_le_pow_right (by decide) (by omega)
  rw [and_highByteMask64 _ (hx.trans (by decide)), Nat.div_eq_of_lt (hx.trans_le hpow), Nat.zero_mul]

/-! ## Reading -/

/-- What is loaded is what was sent, and behind it what stood in the buffer. -/
theorem exists_loaded {mem : Memory} {p : ℤ} {data : List UInt8} (hle : data.length ≤ size)
    (hbytes : ByteMemory.bytes mem p data.length = data) :
    ∃ rest : List UInt8, rest.length = size - data.length ∧
      ofBigEndian (ByteMemory.bytes mem p size) =
        ofBigEndian data * 256 ^ (size - data.length) + ofBigEndian rest := by
  obtain ⟨more, rfl⟩ := Nat.exists_eq_add_of_le hle
  have hmore : data.length + more - data.length = more := Nat.add_sub_cancel_left _ _
  have hlength := length_bytes mem (p + data.length) more
  refine ⟨ByteMemory.bytes mem (p + data.length) more, by rw [hmore, hlength], ?_⟩
  rw [bytes_add, hbytes, ofBigEndian_append, hlength, hmore]

/-- What the mask leaves of a loaded number of 64 bits is what was sent. -/
theorem masked_eq {mem : Memory} {p : ℤ} {data : List UInt8} (hle : data.length ≤ 8)
    (hbytes : ByteMemory.bytes mem p data.length = data) :
    highByteMask64 data.length &&& ofBigEndian (ByteMemory.bytes mem p 8) =
      ofBigEndian data * 256 ^ (8 - data.length) := by
  obtain ⟨rest, hrest, hloaded⟩ := exists_loaded hle hbytes
  have hlt := ofBigEndian_lt (ByteMemory.bytes mem p 8)
  have hrest_lt := ofBigEndian_lt rest
  have hpow : 2 ^ (64 - 8 * data.length) = 256 ^ (8 - data.length) := by
    rw [show 256 = 2 ^ 8 by rfl, ← pow_mul]
    congr 1
    omega
  rw [length_bytes] at hlt
  rw [hrest] at hrest_lt
  rw [and_highByteMask64 _ hlt, hpow, hloaded, Nat.add_comm, Nat.add_mul_div_right _ _ (Nat.pow_pos (by decide)),
    Nat.div_eq_of_lt hrest_lt, Nat.zero_add]

/-- Nothing is left of a number of 32 bits. -/
theorem masked_eq_zero {mem : Memory} {p : ℤ} {count : ℕ} (hcount : count ≤ 4) :
    highByteMask64 count &&& ofBigEndian (ByteMemory.bytes mem p 4) = 0 := by
  have hlt := ofBigEndian_lt (ByteMemory.bytes mem p 4)
  rw [length_bytes] at hlt
  exact and_highByteMask64_of_lt hcount hlt

/-- What is left of a number when it is read. -/
def maskedWord (size word : ℕ) : ℕ := if size = 8 then word else 0

theorem decodes_encodeAlphanumericInt (hsize : size = 4 ∨ size = 8) (hfield : fieldSize ≤ 10)
    (h : IsPacked size fieldSize word) (hword : word < 256 ^ size) :
    Decodes cls (getAlphanumericAs cls size fieldSize) (encodeAlphanumericInt size fieldSize word)
      (maskedWord size word) := by
  obtain ⟨header, data, hdata, hlength⟩ := exists_encodeAlphanumericInt hfield h hword
  have hcodes := sizeCodes_eq hfield
  have hnot : ¬ 10 + 1 < sizeCodes fieldSize := by omega
  have hle := h.length_le
  have hshort : ¬ sizeCodes fieldSize ≤ lengthField size fieldSize word := by omega
  have hused := h.bytesUsed_le
  have hcount : (sizeBits fieldSize + 7 + 6 * lengthField size fieldSize word) / 8 =
      (encodeAlphanumericInt size fieldSize word).length := by
    rw [length_encodeAlphanumericInt, bytesUsed, bitsUsed, Nat.add_right_comm]
  have hused_length := length_encodeAlphanumericInt.trans_le hused
  rw [getAlphanumericAs, if_neg hnot]
  apply decodes_peek (by decide : 1 ≤ 0x200) (by rw [hdata]; simp)
  · intro p r hpeek
    have hheader : r.mem p = header := by
      rw [hdata] at hpeek
      simpa [ByteMemory.bytes] using hpeek
    rw [hheader]
  simp only [hlength, if_neg hshort, hcount]
  apply decodes_bytes _ rfl
  · intro p r hbytes
    rcases hsize with rfl | rfl
    · exact masked_eq_zero hused_length
    · rw [masked_eq hused_length hbytes, encodeAlphanumericInt, length_bigEndian, ofBigEndian_bigEndian, h.mul_div]
      · rfl
      · apply Nat.div_lt_of_lt_mul
        rwa [← pow_add, Nat.sub_add_cancel hused]
  · omega

/-- The byte of a null value. -/
def encodeAlphanumericNull (fieldSize : ℕ) : List UInt8 :=
  [UInt8.ofNat (sizeCodes fieldSize * 2 ^ (8 - sizeBits fieldSize))]

theorem toNat_nullByte (hfield : fieldSize ≤ 10) :
    (UInt8.ofNat (sizeCodes fieldSize * 2 ^ (8 - sizeBits fieldSize))).toNat =
      sizeCodes fieldSize * 2 ^ (8 - sizeBits fieldSize) := by
  have hbits := sizeBits_le hfield
  rw [UInt8.toNat_ofNat']
  apply Nat.mod_eq_of_lt
  calc
    _ < 2 ^ sizeBits fieldSize * 2 ^ (8 - sizeBits fieldSize) :=
      Nat.mul_lt_mul_of_pos_right (Nat.lt_size_self _) (Nat.two_pow_pos _)
    _ = 2 ^ 8 := by rw [← pow_add, Nat.add_sub_cancel' (by omega)]

theorem decodes_encodeAlphanumericNull (size : ℕ) (hfield : fieldSize ≤ 10) :
    Decodes cls (getAlphanumericAs cls size fieldSize) (encodeAlphanumericNull fieldSize) (alphanumericNull size) := by
  have hcodes := sizeCodes_eq hfield
  have hnot : ¬ 10 + 1 < sizeCodes fieldSize := by omega
  have hlength : (UInt8.ofNat (sizeCodes fieldSize * 2 ^ (8 - sizeBits fieldSize))).toNat >>>
      (8 - sizeBits fieldSize) = sizeCodes fieldSize := by
    rw [toNat_nullByte hfield, Nat.shiftRight_eq_div_pow, Nat.mul_div_cancel _ (Nat.two_pow_pos _)]
  rw [getAlphanumericAs, if_neg hnot]
  apply decodes_peek (by decide : 1 ≤ 0x200) le_rfl
  · intro p r hpeek
    have hheader : r.mem p = UInt8.ofNat (sizeCodes fieldSize * 2 ^ (8 - sizeBits fieldSize)) := by
      simpa [ByteMemory.bytes, encodeAlphanumericNull] using hpeek
    rw [hheader]
  simp only [hlength, le_refl, if_true]
  exact (decodes_skip [_]).bind (decodes_pure (alphanumericNull size))

/-! ## Writing -/

theorem holds_alphanumericNullPatch (hfield : fieldSize ≤ 10) :
    (alphanumericNullPatch fieldSize).Holds (encodeAlphanumericNull fieldSize) := by
  have hbits := sizeBits_le hfield
  have hpositive := sizeBits_pos hfield
  have hcount : (sizeBits fieldSize + 7) / 8 = 1 := by omega
  have hword : sizeCodes fieldSize * 2 ^ (32 - sizeBits fieldSize) =
      sizeCodes fieldSize * 2 ^ (8 - sizeBits fieldSize) * 256 ^ 3 := by
    rw [show 256 = 2 ^ 8 by rfl, ← pow_mul, Nat.mul_assoc, ← pow_add]
    congr 2
    omega
  have hfirst : bigEndian 4 (sizeCodes fieldSize * 2 ^ (32 - sizeBits fieldSize)) =
      encodeAlphanumericNull fieldSize ++
        bigEndian 3 (sizeCodes fieldSize * 2 ^ (32 - sizeBits fieldSize)) := by
    rw [bigEndian_succ, hword, Nat.mul_div_cancel _ (by decide)]
    rfl
  rw [alphanumericNullPatch, hcount, hfirst]
  exact Patch.holds_word (encodeAlphanumericNull fieldSize) _

theorem IsPacked.holds_word (h : IsPacked size fieldSize word) :
    (Patch.word (bigEndian size word) (bytesUsed size fieldSize word)).Holds
      (encodeAlphanumericInt size fieldSize word) := by
  have hsplit : bigEndian size word = encodeAlphanumericInt size fieldSize word ++
      bigEndian (size - bytesUsed size fieldSize word) word := by
    rw [encodeAlphanumericInt, ← bigEndian_add, Nat.add_sub_cancel' h.bytesUsed_le]
  have hholds := Patch.holds_word (encodeAlphanumericInt size fieldSize word)
    (bigEndian (size - bytesUsed size fieldSize word) word)
  rwa [← hsplit, length_encodeAlphanumericInt] at hholds

/-- A number of the type that holds a value of the field, or null. -/
structure AlphanumericType.Holds (type : AlphanumericType) (fieldSize : ℕ) (value : ℤ) : Prop where
  low : type.null ≤ value
  high : value < -type.null
  packed : value = type.null ∨ IsPacked type.size fieldSize (Writer.word type.size value)

theorem AlphanumericType.size_cases (type : AlphanumericType) : type.size = 4 ∨ type.size = 8 := by
  cases type
  · exact .inl rfl
  · exact .inr rfl

theorem AlphanumericType.word_null (type : AlphanumericType) :
    Writer.word type.size type.null = alphanumericNull type.size := by
  cases type <;> rfl

/-- Of the numbers that are not null, only zero is read as zero. -/
theorem AlphanumericType.maskedWord_eq_iff {type : AlphanumericType} {value : ℤ} (hlow : type.null ≤ value)
    (hhigh : value < -type.null) (hnull : value ≠ type.null) :
    maskedWord type.size (Writer.word type.size value) = Writer.word type.size value ↔
      type = .int64 ∨ value = 0 ∨ value = type.null := by
  cases type with
  | int64 => exact iff_of_true rfl (.inl rfl)
  | int32 =>
    have hnot : ¬ AlphanumericType.int32 = .int64 := by simp
    rw [or_iff_right hnot, or_iff_left hnull]
    change 0 = (value % 2 ^ 32).toNat ↔ value = 0
    simp only [AlphanumericType.null, AlphanumericType.size] at hlow hhigh
    omega

theorem readsField_alphanumericAs {value : ℕ} {data : List UInt8}
    (h : ∀ cls, Decodes cls (getAlphanumericAs cls size fieldSize) data value) :
    ReadsField (readAlphanumericAs size fieldSize) data value := readsField_of_decodes _ h

/-- A packed value survives as a number of 64 bits; of those of 32 bits only zero and null do. -/
theorem writeAlphanumericInt_survives_iff (type : AlphanumericType) (fieldSize : Fin 11) {value : ℤ}
    (h : type.Holds fieldSize value) (w : DataWriter) :
    wp (writeAlphanumericInt type.size fieldSize value)
      (fun _ w' ↦ ReadsField (readAlphanumericAs type.size fieldSize) (written w w') (Writer.word type.size value) ↔
        type = .int64 ∨ value = 0 ∨ value = type.null)
      (fun _ _ ↦ w.dataEnd < w.dataPtr + type.size) w := by
  have hfield := Nat.lt_succ_iff.mp fieldSize.isLt
  have hputs := puts_writeAlphanumericInt type.size fieldSize value w
  by_cases hnull : value = type.null
  · have hpatch : alphanumericIntPatch type.size fieldSize value = alphanumericNullPatch fieldSize := if_pos hnull
    rw [hpatch] at hputs
    apply wp_of_holds (fun data ↦ ReadsField (readAlphanumericAs type.size fieldSize) data
      (Writer.word type.size value) ↔ type = .int64 ∨ value = 0 ∨ value = type.null) hputs
      (holds_alphanumericNullPatch hfield)
    · cases type <;> exact Nat.le_add_left 1 _
    · apply iff_of_true _ (.inr (.inr hnull))
      rw [hnull, type.word_null]
      exact readsField_alphanumericAs fun _ ↦ decodes_encodeAlphanumericNull type.size hfield
  · have hpacked := h.packed.resolve_left hnull
    have hword : Writer.word type.size value < 256 ^ type.size := unsigned_lt type.size value
    have hread := readsField_alphanumericAs fun _ ↦
      decodes_encodeAlphanumericInt type.size_cases hfield hpacked hword
    have hpatch : alphanumericIntPatch type.size fieldSize value =
        Patch.word (bigEndian type.size (Writer.word type.size value))
          (bytesUsed type.size fieldSize (Writer.word type.size value)) := if_neg hnull
    rw [hpatch] at hputs
    apply wp_of_holds (fun data ↦ ReadsField (readAlphanumericAs type.size fieldSize) data
      (Writer.word type.size value) ↔ type = .int64 ∨ value = 0 ∨ value = type.null) hputs
      hpacked.holds_word
    · exact length_encodeAlphanumericInt.trans_le hpacked.bytesUsed_le
    · rw [← type.maskedWord_eq_iff h.low h.high hnull]
      have hne : encodeAlphanumericInt type.size fieldSize (Writer.word type.size value) ≠ [] := by
        have hpositive := bytesUsed_pos type.size (Writer.word type.size value) hfield
        rw [← List.length_pos_iff, length_encodeAlphanumericInt]
        exact hpositive
      have hsmall : (encodeAlphanumericInt type.size fieldSize (Writer.word type.size value)).length < 2 ^ 32 := by
        have hle := length_encodeAlphanumericInt.trans_le hpacked.bytesUsed_le
        have hsize := type.size_cases
        omega
      constructor
      · exact fun hsurvives ↦ hread.unique hsurvives hne hsmall
      · intro hsame
        rwa [hsame] at hread

/-- The value "A" of a field of ten characters, in 64 bits. -/
theorem alphanumericInt_survives :
    let value : ℤ := 2 ^ 60 + 0x21 * 2 ^ 54
    let w : DataWriter := ⟨fun _ ↦ 0, 0, 16, 0, 0, fun _ ↦ 0, fun _ ↦ false, fun _ ↦ 0, []⟩
    AlphanumericType.int64.Holds (10 : Fin 11) value ∧
      wp (writeAlphanumericInt 8 (10 : Fin 11) value)
        (fun _ w' ↦ ReadsField (readAlphanumericAs 8 (10 : Fin 11)) (written w w') (Writer.word 8 value) ↔
          AlphanumericType.int64 = .int64 ∨ value = 0 ∨ value = AlphanumericType.int64.null)
        (fun _ _ ↦ w.dataEnd < w.dataPtr + 8) w := by
  intro value w
  have hholds : AlphanumericType.int64.Holds (10 : Fin 11) value :=
    ⟨by decide, by decide, .inr ⟨by decide, by decide, by decide⟩⟩
  exact ⟨hholds, writeAlphanumericInt_survives_iff .int64 10 hholds w⟩

/-- The value "A" of a field of five characters is read as zero, in 32 bits. -/
theorem alphanumericInt_lost :
    ¬ ∀ (type : AlphanumericType) (fieldSize : Fin 11) (value : ℤ), type.Holds fieldSize value →
      ∀ w : DataWriter, wp (writeAlphanumericInt type.size fieldSize value)
        (fun _ w' ↦ ReadsField (readAlphanumericAs type.size fieldSize) (written w w') (Writer.word type.size value))
        (fun _ _ ↦ w.dataEnd < w.dataPtr + type.size) w := by
  intro hall
  let value : ℤ := 2 ^ 29 + 0x21 * 2 ^ 23
  let w : DataWriter := ⟨fun _ ↦ 0, 0, 16, 0, 0, fun _ ↦ 0, fun _ ↦ false, fun _ ↦ 0, []⟩
  have hpacked : IsPacked 4 5 (Writer.word 4 value) := ⟨by decide, by decide, by decide⟩
  have hsurvives := hall .int32 5 value ⟨by decide, by decide, .inr hpacked⟩ w
  have hreturns : writeAlphanumericInt 4 5 value w = .ok () (finalState (writeAlphanumericInt 4 5 value) w) :=
    eq_ok_of_returns (by decide +kernel)
  have hbytes : written w (finalState (writeAlphanumericInt 4 5 value) w) =
      encodeAlphanumericInt 4 5 (Writer.word 4 value) := by decide +kernel
  have hread := readsField_alphanumericAs fun _ ↦
    decodes_encodeAlphanumericInt (.inl rfl) (by decide) hpacked (unsigned_lt 4 value)
  change wp (writeAlphanumericInt 4 5 value) _ _ w at hsurvives
  rw [wp_ok hreturns, hbytes] at hsurvives
  exact absurd (hread.unique hsurvives (by decide) (by decide)) (by decide)

/-! ## Conversions -/

/-- The number that a string is: its length in four bits, then six bits for each character. -/
def packString (s : List ℕ) : ℕ :=
  s.length * 2 ^ 60 + s.foldl (fun bits c ↦ bits * 64 + (c - 0x20)) 0 * 64 ^ (10 - s.length)

/-- A string of at most ten characters from 0x20 to 0x5F that is not packed as null. -/
structure IsConvertible (s : List ℕ) : Prop where
  length_le : s.length ≤ 10
  characters : ∀ c ∈ s, 0x20 ≤ c ∧ c < 0x60
  not_null : packString s ≠ alphanumericNull 8

/-- The number of a string is the one that its length and characters are and that the string is read
as when it was sent, and converted back it is the string. -/
structure Converts (shift : UInt32 → UInt32) (unassigned : ℕ → ℕ) (s : List ℕ) : Prop where
  packed : toAlphanumericInt64 shift s = packString s
  length : ∀ dest, (fromAlphanumericInt64 dest (toAlphanumericInt64 shift s)).1 = s.length
  characters : ∀ dest i, (fromAlphanumericInt64 dest (toAlphanumericInt64 shift s)).2 i = s.getD i (dest i)
  sent : ∀ w, wp (putAlphanumeric unassigned 10 s)
    (fun _ w' ↦ ReadsField (readAlphanumericAs 8 10) (written w w') (toAlphanumericInt64 shift s))
    (fun _ _ ↦ w.dataEnd < w.dataPtr + 8) w

/-- The seventh character of eight is left out: its case stands in front of the one of the eighth. -/
theorem fromAlphanumericInt64_of_eight (dest : ℕ → ℕ) {value : ℕ} (hlength : value >>> 60 = 8) :
    (fromAlphanumericInt64 dest value).2 6 = dest 6 := by
  rw [fromAlphanumericInt64]
  split
  · rfl
  · simp [hlength, switchLabels]

/-- Behind seven characters there is written an eighth. -/
theorem fromAlphanumericInt64_of_seven (dest : ℕ → ℕ) {value : ℕ} (hlength : value >>> 60 = 7) :
    (fromAlphanumericInt64 dest value).2 7 = (value <<< 4 % 2 ^ 64) >>> 16 % 0x40 + 0x20 := by
  have hnull : ¬ value = alphanumericNull 8 := by
    rintro rfl
    exact absurd hlength (by decide)
  simp [fromAlphanumericInt64, hnull, hlength, switchLabels]

theorem packCharacter_lt (s : List ℕ) {i : ℕ} (hi : 0 < i) : packCharacter s i < 2 ^ 60 := by
  have hcode := Nat.mod_lt (s.getD (i - 1) 0 + 2 ^ 32 - 0x20) (by decide : 0 < 0x40)
  have hpow : 2 ^ ((10 - i) * 6) ≤ 2 ^ 54 := Nat.pow_le_pow_right (by decide) (by omega)
  rw [packCharacter, Nat.shiftLeft_eq]
  calc
    _ < 0x40 * 2 ^ ((10 - i) * 6) := Nat.mul_lt_mul_of_pos_right hcode (Nat.two_pow_pos _)
    _ ≤ 0x40 * 2 ^ 54 := Nat.mul_le_mul_left _ hpow
    _ = 2 ^ 60 := by decide

theorem packCharacters_lt (s : List ℕ) (labels : List ℕ) (h : ∀ i ∈ labels, 0 < i) :
    labels.foldr (fun i acc ↦ acc ||| packCharacter s i) 0 < 2 ^ 60 := by
  induction labels with
  | nil => exact Nat.two_pow_pos 60
  | cons i labels ih =>
    rw [List.forall_mem_cons] at h
    exact Nat.or_lt_two_pow (ih h.2) (packCharacter_lt s h.1)

theorem packCharacter_singleton {c : ℕ} (hlow : 0x20 ≤ c) (hhigh : c < 0x60) :
    packCharacter [c] 1 = (c - 0x20) * 64 ^ 9 := by
  have hcode : (c + 2 ^ 32 - 0x20) % 0x40 = c - 0x20 := by omega
  change ((c + 2 ^ 32 - 0x20) % 0x40) <<< 54 = _
  rw [hcode, Nat.shiftLeft_eq]
  congr 1

theorem add_ne_two_pow_add {length low : ℕ} (hlength : length < 2 ^ 32) : length + low ≠ 1 * 2 ^ 60 + low := by
  omega

/-- A length of 32 bits does not get into the top four of 64. -/
theorem toAlphanumericInt64_ne {s : List ℕ} (shift : UInt32 → UInt32) (h : IsConvertible s) (hne : s ≠ []) :
    toAlphanumericInt64 shift s ≠ packString s := by
  have hlength := List.length_pos_of_ne_nil hne
  have hlow := packCharacters_lt s (List.range' 1 s.length) fun i hi ↦ (List.mem_range'_1.mp hi).1
  have hshift := (shift (UInt32.ofNat s.length)).toNat_lt
  intro hsame
  rw [toAlphanumericInt64, if_neg (not_lt.mpr h.length_le)] at hsame
  simp only at hsame
  rw [Nat.mod_eq_of_lt (by omega), packString] at hsame
  by_cases hone : s.length = 1
  · obtain ⟨c, rfl⟩ := List.length_eq_one_iff.mp hone
    have hc := h.characters c (List.mem_singleton_self c)
    have hlabels : (List.range' 1 [c].length).foldr (fun i acc ↦ acc ||| packCharacter [c] i) 0 =
        (c - 0x20) * 64 ^ 9 := by
      rw [← packCharacter_singleton hc.1 hc.2, List.length_singleton, List.range'_one, List.foldr_cons,
        List.foldr_nil, Nat.zero_or]
    have hcharacters : [c].foldl (fun bits c ↦ bits * 64 + (c - 0x20)) 0 * 64 ^ (10 - [c].length) =
        (c - 0x20) * 64 ^ 9 := by
      rw [List.foldl_cons, List.foldl_nil, Nat.zero_mul, Nat.zero_add, List.length_singleton]
    rw [hlabels, hcharacters, hone] at hsame
    rw [hone] at hshift
    exact add_ne_two_pow_add hshift hsame
  · omega

theorem converts_nil_iff (shift : UInt32 → UInt32) (unassigned : ℕ → ℕ) :
    Converts shift unassigned [] ↔ shift 0 = 0 := by
  have hvalue : toAlphanumericInt64 shift [] = (shift 0).toNat := by
    have hlt := (shift 0).toNat_lt
    rw [toAlphanumericInt64, if_neg (by decide)]
    exact Nat.mod_eq_of_lt (hlt.trans (by decide))
  constructor
  · intro h
    have hpacked := h.packed
    rw [hvalue] at hpacked
    exact UInt32.toNat_inj.mp hpacked
  · intro h
    have hzero : toAlphanumericInt64 shift [] = 0 := by
      rw [hvalue, h]
      rfl
    have hpacked : IsPacked 8 10 0 := ⟨by decide, by decide, by decide⟩
    constructor
    · rw [hzero]
      rfl
    · intro dest
      rw [hzero]
      rfl
    · intro dest i
      rw [hzero]
      rfl
    · intro w
      rw [hzero]
      have hpatch : alphanumericPatch unassigned 10 [] = some (Patch.word (littleEndian 4 0) 1) := rfl
      have hputs := puts_putAlphanumeric unassigned 10 [] w
      rw [hpatch] at hputs
      apply wp_of_holds (fun data ↦ ReadsField (readAlphanumericAs 8 10) data 0) hputs
        (Patch.holds_littleEndian 0 (by decide))
      · decide
      · exact readsField_alphanumericAs fun _ ↦ decodes_encodeAlphanumericInt (.inr rfl) le_rfl hpacked (by decide)

/-- Only the empty string is converted to what it is sent as. -/
theorem converts_iff (shift : UInt32 → UInt32) (unassigned : ℕ → ℕ) {s : List ℕ} (h : IsConvertible s) :
    Converts shift unassigned s ↔ s = [] ∧ shift 0 = 0 := by
  by_cases hempty : s = []
  · subst hempty
    rw [converts_nil_iff, and_iff_right rfl]
  · apply iff_of_false
    · exact fun hconverts ↦ toAlphanumericInt64_ne shift h hempty hconverts.packed
    · exact fun hboth ↦ hempty hboth.1

/-- On a machine that shifts by 60 modulo 32 the empty string is converted and "A1-Z" is not. -/
theorem converts_only_empty :
    Converts (fun n ↦ n <<< 60) (fun _ ↦ 0) [] ∧ ¬ Converts (fun n ↦ n <<< 60) (fun _ ↦ 0) [0x41, 0x31, 0x2D, 0x5A] := by
  have hempty : IsConvertible [] := ⟨by decide, by decide, by decide⟩
  have hstring : IsConvertible [0x41, 0x31, 0x2D, 0x5A] := ⟨by decide, by decide, by decide⟩
  constructor
  · exact (converts_iff _ _ hempty).mpr ⟨rfl, by decide⟩
  · exact mt (converts_iff _ _ hstring).mp fun h ↦ List.cons_ne_nil _ _ h.1

/-- On a machine that shifts by 60 modulo 32 the string "A" is not converted to its number. -/
theorem conversion_loses_length :
    ¬ ∀ s : List ℕ, IsConvertible s → Converts (fun n ↦ n <<< 60) (fun _ ↦ 0) s := by
  intro hall
  have hpacked := (hall [0x41] ⟨by decide, by decide, by decide⟩).packed
  exact absurd hpacked (by decide +kernel)

end DxApi.Reader
