import DxApi.Reader.Trips

/-!
# Packed integers and intervals

A packed integer is a header byte, in which the low bits are and the number of the bytes that hold
the others. There are no more of them than the number needs, so that no shorter encoding is read as
the same number. An interval is one byte if it is a small number of seconds, minutes or hours. Which
of the three it is has to be in that byte as well, but the writer leaves it out.
-/

namespace DxApi.Reader

open Exec ByteMemory ByteOrder Writer

variable {cls : ReaderClass}

/-! ## A number behind a header -/

/-- How many bytes a number needs. -/
def bytesNeeded (value : ℕ) : ℕ := (Nat.size value + 7) / 8

theorem bytesNeeded_le_iff {value count : ℕ} : bytesNeeded value ≤ count ↔ value < 256 ^ count := by
  have hpow : 256 ^ count = 2 ^ (8 * count) := by rw [Nat.pow_mul]
  rw [hpow, ← Nat.size_le, bytesNeeded]
  omega

theorem lt_bytesNeeded (value : ℕ) : value < 256 ^ bytesNeeded value := bytesNeeded_le_iff.mp le_rfl

theorem holds_variablePatch {size value : ℕ} (header : ℕ → ℕ) (hvalue : value < 256 ^ size) :
    (variablePatch size value header).Holds
      (UInt8.ofNat (header (bytesNeeded value)) :: littleEndian (bytesNeeded value) value) := by
  obtain ⟨more, hmore⟩ := Nat.exists_eq_add_of_le (bytesNeeded_le_iff.mpr hvalue)
  have hword : littleEndian size value =
      littleEndian (bytesNeeded value) value ++ littleEndian more (value / 256 ^ bytesNeeded value) := by
    rw [← littleEndian_add, ← hmore]
  have hholds := Patch.holds_word
    (UInt8.ofNat (header (bytesNeeded value)) :: littleEndian (bytesNeeded value) value)
    (littleEndian more (value / 256 ^ bytesNeeded value))
  rw [List.cons_append, ← hword, List.length_cons, length_littleEndian] at hholds
  exact hholds

/-- Low bits and the others, put together. -/
theorem or_mul_two_pow {a k : ℕ} (b : ℕ) (h : a < 2 ^ k) : a ||| b * 2 ^ k = b * 2 ^ k + a := by
  rw [← Nat.shiftLeft_eq, Nat.shiftLeft_add_eq_or_of_lt h, Nat.or_comm]

/-- `data` is read as `value` and skipped, and no fewer bytes are read as `value`. -/
structure PackedSurvives (read : ReaderClass → ReaderM ℕ) (skip : ReaderClass → ReaderM Unit) (value : ℕ)
    (data : List UInt8) : Prop where
  reads : ReadsField read data value
  skips : ReadsField skip data ()
  shortest : ∀ other, ReadsField read other value → data.length ≤ other.length

/-! ## Packed integers -/

/-- The two types of packed integers. -/
inductive PackedType
  | pUInt30
  | pUInt61

namespace PackedType

/-- The bytes of the type that a number is put together in. -/
def size : PackedType → ℕ
  | pUInt30 => 4
  | pUInt61 => 8

/-- The bits in the header. -/
def low : PackedType → ℕ
  | pUInt30 => 6
  | pUInt61 => 5

/-- The bytes that may follow the header. -/
def more : PackedType → ℕ
  | pUInt30 => 3
  | pUInt61 => 7

def null : PackedType → ℕ
  | pUInt30 => uint30Null
  | pUInt61 => uint61Null

def max : PackedType → ℕ
  | pUInt30 => 2 ^ 30 - 2
  | pUInt61 => 2 ^ 61 - 2

def read (type : PackedType) (cls : ReaderClass) : ReaderM ℕ := readPUInt type.size type.null cls

def skip (type : PackedType) (cls : ReaderClass) : ReaderM Unit := skipPUInt type.size cls

def write (type : PackedType) (value : ℕ) : WriterM Unit := writePUInt type.size type.null type.max value

variable (type : PackedType)

theorem low_eq : 0x100 / type.size = 2 ^ type.low := by cases type <;> rfl

theorem header_eq : (type.more + 1) * 2 ^ type.low = 256 := by cases type <;> rfl

theorem size_le : type.size ≤ 8 := by cases type <;> decide

theorem max_eq : type.max + 2 = 256 ^ type.more * 2 ^ type.low := by cases type <;> rfl

theorem null_eq : type.null + 1 = 2 ^ (8 * type.size - 1) := by cases type <;> rfl

theorem max_lt_null : type.max + 2 ≤ type.null := by cases type <;> decide

theorem max_lt_size : type.max + 2 < 256 ^ type.size := by cases type <;> decide

theorem word_eq : 2 ^ (8 * type.size) = 2 * 2 ^ (8 * type.size - 1) := by cases type <;> rfl

/-- The header and the bytes of a packed number. -/
def encode (value : ℕ) : List UInt8 :=
  let count := bytesNeeded (value / 2 ^ type.low)
  UInt8.ofNat (count * 2 ^ type.low + value % 2 ^ type.low) :: littleEndian count (value / 2 ^ type.low)

/-- The number that a header and its bytes are. -/
def decode (header : UInt8) (data : List UInt8) : ℕ :=
  ofLittleEndian data * 2 ^ type.low + header.toNat % 2 ^ type.low

variable {type} {value : ℕ}

theorem length_encode : (type.encode value).length = bytesNeeded (value / 2 ^ type.low) + 1 := by
  rw [encode, List.length_cons, length_littleEndian]

theorem bytesNeeded_le_more (hvalue : value ≤ type.max + 1) : bytesNeeded (value / 2 ^ type.low) ≤ type.more := by
  have hmax := type.max_eq
  rw [bytesNeeded_le_iff]
  apply Nat.div_lt_of_lt_mul
  rw [Nat.mul_comm]
  omega

theorem holds_packedPatch (hvalue : value ≤ type.max + 1) : (packedPatch type.size value).Holds (type.encode value) := by
  have hlow : value % 2 ^ type.low < 2 ^ type.low := Nat.mod_lt _ (Nat.two_pow_pos type.low)
  have hfits : value / 2 ^ type.low < 256 ^ type.size := by
    have hsmall := type.max_lt_size
    have hdiv := Nat.div_le_self value (2 ^ type.low)
    omega
  have hholds := holds_variablePatch (fun count ↦ value % 2 ^ type.low ||| count * 2 ^ type.low) hfits
  simp only [or_mul_two_pow _ hlow] at hholds
  rw [packedPatch, type.low_eq]
  simp only [or_mul_two_pow _ hlow]
  exact hholds

/-- The header says how many bytes follow. -/
theorem decodes_getPackedUInt {header : UInt8} {data : List UInt8} (hdata : data.length = header.toNat / 2 ^ type.low) :
    Decodes cls (getPackedUInt cls type.size) (header :: data) (type.decode header data) := by
  have hlow : header.toNat % 2 ^ type.low < 2 ^ type.low := Nat.mod_lt _ (Nat.two_pow_pos type.low)
  have hcount : header.toNat / 2 ^ type.low ≤ 0x200 :=
    (Nat.div_le_self _ _).trans (header.toNat_lt.le.trans (by decide))
  apply decodes_header
  rw [type.low_eq]
  have hload := (@decodes_loadLE_bytes cls _ _ hcount hdata).map fun x ↦
    header.toNat % 2 ^ type.low ||| x * 2 ^ type.low
  rw [or_mul_two_pow _ hlow] at hload
  exact hload

theorem readsField_read {header : UInt8} {data : List UInt8} (hdata : data.length = header.toNat / 2 ^ type.low) :
    ReadsField type.read (header :: data) (unpackUInt type.size (type.decode header data)) :=
  readsField_of_decodes type.null fun _ ↦ (decodes_getPackedUInt hdata).map _

theorem readsField_skip {header : UInt8} {data : List UInt8} (hdata : data.length = header.toNat / 2 ^ type.low) :
    ReadsField type.skip (header :: data) () := by
  apply readsField_of_decodes ()
  intro cls
  apply decodes_header
  rw [type.low_eq, ← hdata]
  exact decodes_skip data

/-- What a packed number reads as. -/
theorem unpackUInt_eq (hvalue : value ≤ type.max + 1) :
    unpackUInt type.size value = if value = 0 then type.null else value - 1 := by
  have hnull := type.null_eq
  have hsmall := type.max_lt_null
  have hword := type.word_eq
  rw [unpackUInt, hword, ← hnull, Nat.mod_mul_left_mod]
  split
  next hzero =>
    have hlast : 0 + 2 * (type.null + 1) - 1 = type.null + (type.null + 1) := by omega
    rw [hzero, hlast, Nat.add_mod_right, Nat.mod_eq_of_lt (Nat.lt_succ_self _)]
  next hpositive =>
    have hless : value + 2 * (type.null + 1) - 1 = value - 1 + 2 * (type.null + 1) := by omega
    rw [hless, Nat.add_mul_mod_self_right, Nat.mod_eq_of_lt (by omega)]

/-- A number, or null. -/
def Fits (type : PackedType) (value : ℕ) : Prop := value = type.null ∨ value ≤ type.max

/-- The number that stands for a number or null: the next one, and zero for null. -/
def code (type : PackedType) (value : ℕ) : ℕ := if value = type.null then 0 else value + 1

theorem code_le (h : type.Fits value) : type.code value ≤ type.max + 1 := by
  rw [code]
  split
  · exact Nat.zero_le _
  · rcases h with hnull | hmax
    · contradiction
    · omega

theorem unpackUInt_code (h : type.Fits value) : unpackUInt type.size (type.code value) = value := by
  rw [unpackUInt_eq (code_le h), code]
  split
  next hnull => exact (if_pos rfl).trans hnull.symm
  next => exact if_neg (Nat.succ_ne_zero value)

/-- Null is the byte zero, which is how a packed zero is written. -/
theorem encode_zero : type.encode 0 = [0] := by cases type <;> rfl

theorem pUIntPatch_eq_none_iff : pUIntPatch type.size type.null type.max value = none ↔ ¬ type.Fits value := by
  rw [pUIntPatch, Fits]
  split
  next hnull => simp [hnull]
  next hnull =>
    split
    next hbig => simp [hnull, hbig]
    next hsmall => simp [hnull, not_lt.mp hsmall]

theorem holds_pUIntPatch {p : Patch} (hp : pUIntPatch type.size type.null type.max value = some p) :
    p.Holds (type.encode (type.code value)) := by
  rw [pUIntPatch] at hp
  rw [code]
  by_cases hnull : value = type.null
  · rw [if_pos hnull] at hp ⊢
    rw [← Option.some.inj hp, encode_zero]
    exact Patch.holds_byte 0
  · by_cases hbig : type.max < value
    · rw [if_neg hnull, if_pos hbig] at hp
      cases hp
    · rw [if_neg hnull, if_neg hbig] at hp
      rw [if_neg hnull, ← Option.some.inj hp]
      exact holds_packedPatch (by omega)

/-- The header of an encoded number, read back. -/
theorem header_encode (hvalue : value ≤ type.max + 1) :
    ∃ header data, type.encode value = header :: data ∧ data.length = header.toNat / 2 ^ type.low ∧
      type.decode header data = value := by
  have hcount := bytesNeeded_le_more hvalue
  have hpositive := Nat.two_pow_pos type.low
  have hlow : value % 2 ^ type.low < 2 ^ type.low := Nat.mod_lt _ hpositive
  have hheader : (UInt8.ofNat (bytesNeeded (value / 2 ^ type.low) * 2 ^ type.low + value % 2 ^ type.low)).toNat =
      value % 2 ^ type.low + 2 ^ type.low * bytesNeeded (value / 2 ^ type.low) := by
    have hbound := type.header_eq
    rw [UInt8.toNat_ofNat', Nat.mod_eq_of_lt, Nat.add_comm, Nat.mul_comm]
    calc _ < bytesNeeded (value / 2 ^ type.low) * 2 ^ type.low + 2 ^ type.low := Nat.add_lt_add_left hlow _
      _ = (bytesNeeded (value / 2 ^ type.low) + 1) * 2 ^ type.low := (Nat.succ_mul _ _).symm
      _ ≤ (type.more + 1) * 2 ^ type.low := Nat.mul_le_mul_right _ (Nat.succ_le_succ hcount)
      _ = 256 := hbound
  refine ⟨_, _, rfl, ?_, ?_⟩
  · rw [hheader, length_littleEndian, Nat.add_mul_div_left _ _ hpositive, Nat.div_eq_of_lt hlow, Nat.zero_add]
  · rw [decode, hheader, ofLittleEndian_littleEndian (lt_bytesNeeded _), Nat.add_mul_mod_self_left,
      Nat.mod_mod]
    exact Nat.div_add_mod' value (2 ^ type.low)

theorem code_unpackUInt (hvalue : value ≤ type.max + 1) : type.code (unpackUInt type.size value) = value := by
  have hsmall := type.max_lt_null
  rw [unpackUInt_eq hvalue]
  split
  next hzero => exact (if_pos rfl).trans hzero.symm
  next hpositive =>
    rw [code, if_neg (by omega)]
    omega

theorem decode_le {header : UInt8} {data : List UInt8} (hdata : data.length = header.toNat / 2 ^ type.low) :
    type.decode header data ≤ type.max + 1 := by
  have hpositive := Nat.two_pow_pos type.low
  have hcount : data.length ≤ type.more := by
    rw [hdata, ← Nat.lt_succ_iff, Nat.div_lt_iff_lt_mul hpositive, type.header_eq]
    exact header.toNat_lt
  have hbytes := (ofLittleEndian_lt data).trans_le (Nat.pow_le_pow_right (by decide) hcount)
  have hproduct := Nat.mul_le_mul_right (2 ^ type.low) (Nat.succ_le_of_lt hbytes)
  have hlow := Nat.mod_lt header.toNat hpositive
  rw [← type.max_eq, Nat.succ_mul] at hproduct
  rw [decode]
  omega

/-- No fewer bytes are read as the same number. -/
theorem length_encode_le {other : List UInt8} (h : type.Fits value) (hread : ReadsField type.read other value) :
    (type.encode (type.code value)).length ≤ other.length := by
  have hcount : bytesNeeded (type.code value / 2 ^ type.low) + 1 ≤ 8 := by
    have hmore := bytesNeeded_le_more (code_le h)
    cases type <;> exact Nat.succ_le_succ (hmore.trans (by decide))
  by_cases hlong : 2 ^ 31 ≤ other.length
  · rw [length_encode]
    omega
  have hsize (header : UInt8) : header.toNat / 2 ^ type.low ≤ 8 := by
    have hheader := header.toNat_lt
    cases type <;> simp only [low] <;> omega
  obtain ⟨header, data, rfl, hdata, hvalue⟩ :=
    hread.exists_header hsize (fun _ _ ↦ readsField_read) (not_le.mp hlong)
  have hle := decode_le hdata
  calc
    _ = bytesNeeded (type.decode header data / 2 ^ type.low) + 1 := by
      rw [hvalue, code_unpackUInt hle, length_encode]
    _ ≤ data.length + 1 := by
      have hlow := Nat.mod_lt header.toNat (Nat.two_pow_pos type.low)
      rw [decode, Nat.mul_comm, Nat.mul_add_div (Nat.two_pow_pos type.low), Nat.div_eq_of_lt hlow, Nat.add_zero]
      exact Nat.succ_le_succ (bytesNeeded_le_iff.mpr (ofLittleEndian_lt data))
    _ = (header :: data).length := (List.length_cons).symm

theorem survives_encode (h : type.Fits value) :
    PackedSurvives type.read type.skip value (type.encode (type.code value)) := by
  obtain ⟨header, data, hencode, hdata, hdecode⟩ := header_encode (code_le h)
  have hread := readsField_read hdata
  have hskip := readsField_skip hdata
  rw [hdecode, unpackUInt_code h, ← hencode] at hread
  rw [← hencode] at hskip
  exact ⟨hread, hskip, fun _ ↦ length_encode_le h⟩

/-- A number or null is written and comes back, and nothing else is written. -/
theorem write_survives (type : PackedType) (value : ℕ) (w : DataWriter) :
    wp (type.write value)
      (fun _ w' ↦ type.Fits value ∧ PackedSurvives type.read type.skip value (written w w'))
      (fun _ _ ↦ ¬ type.Fits value ∨ w.dataEnd < w.dataPtr + (type.more + 1 : ℕ)) w := by
  apply wp_of_puts (type.Fits value) (PackedSurvives type.read type.skip value) (type.more + 1)
    (puts_writePUInt type.size type.null type.max value w) pUIntPatch_eq_none_iff.mpr
  intro hfits
  obtain ⟨p, hp⟩ := Option.ne_none_iff_exists'.mp (mt pUIntPatch_eq_none_iff.mp (not_not.mpr hfits))
  refine ⟨p, _, hp, holds_pUIntPatch hp, ?_, survives_encode hfits⟩
  rw [length_encode]
  exact Nat.succ_le_succ (bytesNeeded_le_more (code_le hfits))

end PackedType

/-- A packed integer is written exactly if it is null or small enough and there is room, in as few bytes
as any that are read as it. -/
theorem writePUInt_survives (w : DataWriter) :
    (∀ value : UInt32, wp (writePUInt30 value.toNat)
      (fun _ w' ↦ (value.toNat = uint30Null ∨ value.toNat ≤ 2 ^ 30 - 2) ∧
        PackedSurvives readPUInt30 skipPUInt30 value.toNat (written w w'))
      (fun _ _ ↦ ¬ (value.toNat = uint30Null ∨ value.toNat ≤ 2 ^ 30 - 2) ∨ w.dataEnd < w.dataPtr + 4) w) ∧
    (∀ value : UInt64, wp (writePUInt61 value.toNat)
      (fun _ w' ↦ (value.toNat = uint61Null ∨ value.toNat ≤ 2 ^ 61 - 2) ∧
        PackedSurvives readPUInt61 skipPUInt61 value.toNat (written w w'))
      (fun _ _ ↦ ¬ (value.toNat = uint61Null ∨ value.toNat ≤ 2 ^ 61 - 2) ∨ w.dataEnd < w.dataPtr + 8) w) :=
  ⟨fun value ↦ PackedType.write_survives .pUInt30 value.toNat w,
    fun value ↦ PackedType.write_survives .pUInt61 value.toNat w⟩

/-! ## Intervals -/

/-- The number in the header of an interval of one byte: hours, minutes or seconds. -/
def units (value : ℕ) : ℕ :=
  if value % 60000 = 0 then if value % 3600000 = 0 then value / 3600000 else value / 60000
  else value / 1000

/-- Hours or minutes that six bits hold: that they are no seconds is not written. -/
def UnitLost (value : ℕ) : Prop := 0 < value ∧ value % 60000 = 0 ∧ units value < 0x40

instance (value : ℕ) : Decidable (UnitLost value) :=
  inferInstanceAs (Decidable (_ ∧ _ ∧ _))

/-- The bytes of an interval: one if it is a few units. -/
def encodeInterval (value : ℕ) : List UInt8 :=
  if value % 1000 = 0 ∧ units value < 0x40 then [UInt8.ofNat (units value)]
  else 0xC0 :: bigEndian 4 value

theorem exists_otherIntervalPatch {value : ℕ} (hvalue : value < 2 ^ 32) :
    ∃ p, otherIntervalPatch value = some p ∧ p.Holds (0xC0 :: bigEndian 4 value) := by
  have hword : Writer.word 4 value = value := by
    rw [Writer.word]
    omega
  have hholds := (Patch.holds_byte 0xC0).append (Patch.holds_wordPatch 4 value)
  rw [hword] at hholds
  exact ⟨_, rfl, hholds⟩

theorem exists_scaledIntervalPatch (v : ℕ) {value : ℕ} (hvalue : value < 2 ^ 32) :
    ∃ p, scaledIntervalPatch v value = some p ∧
      p.Holds (if v < 0x40 then [UInt8.ofNat v] else 0xC0 :: bigEndian 4 value) := by
  rw [scaledIntervalPatch]
  split
  · exact ⟨_, rfl, Patch.holds_byte _⟩
  · exact exists_otherIntervalPatch hvalue

/-- What is too large has no patch. -/
theorem intervalPatch_of_gt {value : ℕ} (hvalue : 0x7FFFFFFF < value) : intervalPatch value = none := by
  rw [intervalPatch, if_neg (by omega), if_pos hvalue]

theorem exists_intervalPatch {value : ℕ} (hvalue : value ≤ 0x7FFFFFFF) :
    ∃ p, intervalPatch value = some p ∧ p.Holds (encodeInterval value) := by
  have hscaled (v : ℕ) := @exists_scaledIntervalPatch v value (by omega)
  rw [intervalPatch, encodeInterval, units]
  split
  next hzero =>
    rw [hzero]
    exact ⟨_, rfl, Patch.holds_byte 0⟩
  next hpositive =>
    rw [if_neg (not_lt.mpr hvalue)]
    by_cases hminutes : value % 60000 = 0
    · have hseconds : value % 1000 = 0 := by omega
      simp only [if_pos hminutes, hseconds, true_and]
      split
      · exact hscaled _
      · exact hscaled _
    · simp only [if_neg hminutes]
      by_cases hseconds : value % 1000 = 0
      · simp only [hseconds, true_and]
        exact hscaled _
      · simp only [hseconds, false_and, if_false]
        exact exists_otherIntervalPatch (by omega)

theorem length_encodeInterval_le (value : ℕ) : (encodeInterval value).length ≤ 5 := by
  rw [encodeInterval]
  split
  · exact Nat.le_of_ble_eq_true rfl
  · rw [List.length_cons, length_bigEndian]

/-- One byte is read as seconds if its two high bits are zero. -/
theorem readsField_units {v : ℕ} (hv : v < 0x40) : ReadsField readInterval [UInt8.ofNat v] (v * 1000) := by
  apply readsField_of_decodes 0
  intro cls
  apply decodes_header
  have hheader : (UInt8.ofNat v).toNat = v := by
    rw [UInt8.toNat_ofNat']
    omega
  have hscale : v / 0x40 = 0 := by omega
  have hunits : v % 0x40 = v := by omega
  rw [hheader, hscale, hunits]
  exact decodes_pure (v * 1000)

theorem readsField_other {value : ℕ} (hvalue : value < 2 ^ 32) :
    ReadsField readInterval (0xC0 :: bigEndian 4 value) value := by
  apply readsField_of_decodes 0
  intro cls
  apply decodes_header
  exact decodes_loadBE (by decide) hvalue

/-- An interval is read back if and only if it was not written without its unit. -/
theorem readsField_encodeInterval_iff {value : ℕ} (hvalue : value < 2 ^ 32) :
    ReadsField readInterval (encodeInterval value) value ↔ ¬ UnitLost value := by
  rw [encodeInterval]
  split
  next hshort =>
    have hread := readsField_units hshort.2
    have hsame : ReadsField readInterval [UInt8.ofNat (units value)] value ↔ units value * 1000 = value := by
      constructor
      · exact fun h ↦ hread.unique h (List.cons_ne_nil _ _) (by simp)
      · intro h
        rwa [h] at hread
    rw [hsame, UnitLost]
    have hseconds := hshort.1
    have hfits := hshort.2
    unfold units at hfits ⊢
    by_cases hminutes : value % 60000 = 0
    · by_cases hhours : value % 3600000 = 0
      · simp only [if_pos hminutes, if_pos hhours] at hfits ⊢
        omega
      · simp only [if_pos hminutes, if_neg hhours] at hfits ⊢
        omega
    · simp only [if_neg hminutes] at hfits ⊢
      omega
  next hlong =>
    apply iff_of_true (readsField_other hvalue)
    intro ⟨_, hminutes, hfits⟩
    exact hlong ⟨by omega, hfits⟩

/-- Every interval up to the largest is written, and is read back if and only if its unit is; larger
numbers are not written. -/
theorem putInterval_survives_iff (value : UInt32) (w : DataWriter) :
    wp (putInterval value.toNat)
      (fun _ w' ↦ value.toNat ≤ 0x7FFFFFFF ∧
        (ReadsField readInterval (written w w') value.toNat ↔ ¬ UnitLost value.toNat))
      (fun _ _ ↦ 0x7FFFFFFF < value.toNat ∨ w.dataEnd < w.dataPtr + 5) w := by
  have hvalue := value.toNat_lt
  generalize value.toNat = v at hvalue
  have hspec : wp (putInterval v)
      (fun _ w' ↦ v ≤ 0x7FFFFFFF ∧ (ReadsField readInterval (written w w') v ↔ ¬ UnitLost v))
      (fun _ _ ↦ ¬ v ≤ 0x7FFFFFFF ∨ w.dataEnd < w.dataPtr + (5 : ℕ)) w := by
    apply wp_of_puts (v ≤ 0x7FFFFFFF) (fun data ↦ ReadsField readInterval data v ↔ ¬ UnitLost v) 5
      (puts_putInterval v w) (fun hlarge ↦ intervalPatch_of_gt (not_le.mp hlarge))
    intro hle
    obtain ⟨p, hp, hholds⟩ := exists_intervalPatch hle
    exact ⟨p, _, hp, hholds, length_encodeInterval_le v, readsField_encodeInterval_iff hvalue⟩
  simpa only [not_le, Nat.cast_ofNat] using hspec

/-- A minute is read as a second. -/
theorem interval_unit_lost :
    ¬ ∀ (value : UInt32) (w : DataWriter), wp (putInterval value.toNat)
      (fun _ w' ↦ value.toNat ≤ 0x7FFFFFFF ∧ ReadsField readInterval (written w w') value.toNat)
      (fun _ _ ↦ 0x7FFFFFFF < value.toNat ∨ w.dataEnd < w.dataPtr + 5) w := by
  intro hall
  let w : DataWriter := ⟨fun _ ↦ 0, 0, 16, 0, 0, fun _ ↦ 0, fun _ ↦ false, fun _ ↦ 0, []⟩
  have hread := hall 60000 w
  have hreturns : putInterval (60000 : UInt32).toNat w =
      .ok () (finalState (putInterval (60000 : UInt32).toNat) w) := eq_ok_of_returns (by decide +kernel)
  have hbytes : written w (finalState (putInterval (60000 : UInt32).toNat) w) = [1] := by decide +kernel
  rw [wp_ok hreturns, hbytes] at hread
  have hseconds := readsField_units (v := 1) (by decide)
  exact absurd (hread.2.unique hseconds (List.cons_ne_nil _ _) (by decide)) (by decide)

end DxApi.Reader
