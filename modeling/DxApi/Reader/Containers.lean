import DxApi.Reader.Trips
import DxApi.Writer.Container

/-!
# Reading containers

A container is its length, packed in one, two or three bytes, and its content. To open one is to
narrow the content limit to it and to remember what is held back of the enclosing content; to close
one is to pass over what is left of it and to put that back.
-/

namespace DxApi.Reader

open Exec ByteMemory ByteOrder Writer

variable {cls : ReaderClass} {r : DataReader} {data rest : List UInt8} {left : ℤ}

/-! ## Packed lengths and counts -/

theorem foldr_eq_ofLittleEndian (data : List UInt8) :
    data.foldr (fun byte x ↦ byte.toNat + 256 * x) 0 = ofLittleEndian data := by
  induction data with
  | nil => rfl
  | cons byte data ih => rw [List.foldr_cons, ih, ofLittleEndian]

theorem ofBigEndian_byte (mem : Memory) (p : ℤ) : ofBigEndian (ByteMemory.bytes mem p 1) = (mem p).toNat := by
  simp [ByteMemory.bytes, ofBigEndian, ofLittleEndian]

/-- The part behind the first byte. -/
def getPackedUInt22Of (cls : ReaderClass) (header : ℕ) : ReaderM ℕ :=
  if header < 0x80 then
    return header
  else do
    return header % 0x40 + (← loadLE cls (header / 0x40 - 1)) * 0x40

theorem getPackedUInt22_eq : getPackedUInt22 cls = (getByte cls >>= getPackedUInt22Of cls) := by
  simp only [getPackedUInt22, getByte, loadBE, bind_assoc, pure_bind, ofBigEndian_byte, getPackedUInt22Of, loadLE,
    foldr_eq_ofLittleEndian, Nat.cast_one]

theorem getByte_lt (cls : ReaderClass) (r : DataReader) :
    wp (getByte cls) (fun value _ ↦ value < 0x100) (fun _ _ ↦ True) r := by
  apply wp_call wp_trivial
  · intro p r' _
    have hlt := ofBigEndian_lt (ByteMemory.bytes r'.mem p 1)
    rw [length_bytes] at hlt
    rw [wp_bind, wp_get, wp_pure]
    exact hlt
  · exact fun _ _ _ ↦ trivial

theorem loadLE_lt (cls : ReaderClass) (n : ℕ) (r : DataReader) :
    wp (loadLE cls n) (fun value _ ↦ value < 256 ^ n) (fun _ _ ↦ True) r := by
  apply wp_call wp_trivial
  · intro p r' _
    have hlt := ofLittleEndian_lt (ByteMemory.bytes r'.mem p n)
    rw [length_bytes] at hlt
    rw [wp_bind, wp_get, wp_pure]
    exact hlt
  · exact fun _ _ _ ↦ trivial

/-- What is read has at most twenty-two bits. -/
theorem getPackedUInt22_lt (cls : ReaderClass) (r : DataReader) :
    wp (getPackedUInt22 cls) (fun value _ ↦ value < 2 ^ 22) (fun _ _ ↦ True) r := by
  rw [getPackedUInt22_eq]
  apply wp_call (getByte_lt cls r)
  · intro header r₁ hheader
    rw [getPackedUInt22Of, wp_ite]
    refine ⟨fun hsmall ↦ wp_pure.mpr (by omega), fun hlarge ↦ ?_⟩
    apply wp_call (loadLE_lt cls (header / 0x40 - 1) r₁)
    · intro x r₂ hx
      have hcount : 256 ^ (header / 0x40 - 1) ≤ 256 ^ 2 := Nat.pow_le_pow_right (by decide) (by omega)
      exact wp_pure.mpr (by omega)
    · exact fun _ _ _ ↦ trivial
  · exact fun _ _ _ ↦ trivial

/-- A value of twenty-two bits is read as it was written. -/
theorem decodes_packedCount {value : ℕ} (hvalue : value < 2 ^ 22) :
    Decodes cls (getPackedUInt22 cls) (packedCount value) value := by
  rw [getPackedUInt22_eq, packedCount]
  by_cases hsmall : value < 0x80
  · have hheader : (UInt8.ofNat value).toNat = value := by
      rw [UInt8.toNat_ofNat']
      omega
    rw [if_pos hsmall]
    apply decodes_header
    rw [hheader, getPackedUInt22Of, if_pos hsmall]
    exact decodes_pure value
  · have hbits : Nat.size (value / 0x40) ≤ 16 := Nat.size_le.mpr (by omega)
    have hpositive : 0 < Nat.size (value / 0x40) := Nat.size_pos.mpr (by omega)
    have hfits : value / 0x40 < 256 ^ ((Nat.size (value / 0x40) + 7) / 8) := by
      rw [show 256 = 2 ^ 8 by rfl, ← pow_mul, ← Nat.size_le]
      omega
    have hcount : 1 ≤ (Nat.size (value / 0x40) + 7) / 8 ∧ (Nat.size (value / 0x40) + 7) / 8 ≤ 2 := by omega
    rw [if_neg hsmall]
    generalize (Nat.size (value / 0x40) + 7) / 8 = numBytes at hfits hcount ⊢
    have hheader : (UInt8.ofNat (value % 0x40 + 0x40 + numBytes * 0x40)).toNat =
        value % 0x40 + 0x40 + numBytes * 0x40 := by
      rw [UInt8.toNat_ofNat']
      omega
    have hlow : (value % 0x40 + 0x40 + numBytes * 0x40) % 0x40 = value % 0x40 := by omega
    have hhigh : (value % 0x40 + 0x40 + numBytes * 0x40) / 0x40 - 1 = numBytes := by omega
    have hload := (@decodes_loadLE cls numBytes _ (by omega) hfits).map fun x ↦ value % 0x40 + x * 0x40
    have hvalue : value % 0x40 + value / 0x40 * 0x40 = value := Nat.mod_add_div' value 0x40
    rw [hvalue] at hload
    apply decodes_header
    rw [hheader, getPackedUInt22Of, if_neg (by omega), hlow, hhigh]
    exact hload

/-- The reference form of a length is what the writer leaves for it. -/
theorem packedCount_eq {value : ℕ} (hvalue : value < 2 ^ 22) : packedCount value = packedUInt22 value := by
  have hpositive : ¬ value < 0x80 → 0 < Nat.size (value / 0x40) := fun hlarge ↦ Nat.size_pos.mpr (by omega)
  have hone : value < 0x4000 ↔ Nat.size (value / 0x40) ≤ 8 := by
    rw [Nat.size_le]
    omega
  have htwo : Nat.size (value / 0x40) ≤ 16 := Nat.size_le.mpr (by omega)
  have hdiv : value / 0x40 / 256 = value / 0x4000 := Nat.div_div_eq_div_mul _ _ _
  rw [packedCount, packedUInt22]
  by_cases hsmall : value < 0x80
  · rw [if_pos hsmall, if_pos hsmall]
  rw [if_neg hsmall, if_neg hsmall]
  have hpositive' := hpositive hsmall
  by_cases hmiddle : value < 0x4000
  · have hcount : (Nat.size (value / 0x40) + 7) / 8 = 1 := by omega
    have hheader : value % 0x40 + 0x40 + 1 * 0x40 = 0x80 + value % 0x40 := by omega
    rw [if_pos hmiddle, hcount]
    change UInt8.ofNat (value % 0x40 + 0x40 + 1 * 0x40) :: littleEndian 1 (value / 0x40) = _
    rw [hheader]
    rfl
  · have hcount : (Nat.size (value / 0x40) + 7) / 8 = 2 := by omega
    have hheader : value % 0x40 + 0x40 + 2 * 0x40 = 0xC0 + value % 0x40 := by omega
    rw [if_neg hmiddle, hcount, ← hdiv]
    change UInt8.ofNat (value % 0x40 + 0x40 + 2 * 0x40) :: littleEndian 2 (value / 0x40) = _
    rw [hheader]
    rfl

/-! ## Open and close -/

variable {message : List UInt8} {n consumed length : ℕ} {count : ℕ}

/-- `r'` is in the same containers as `r`. -/
structure SameNesting (r r' : DataReader) : Prop where
  depth_eq : r'.depth = r.depth
  eOfs_eq : r'.eOfs = r.eOfs
  kinds_eq : r'.containerIsArray = r.containerIsArray

theorem Moved.sameNesting {r r' : DataReader} (h : Moved r r') : SameNesting r r' := by
  obtain ⟨_, _, _, _, _, _, _, _, rfl⟩ := h
  exact ⟨rfl, rfl, rfl⟩

/-- A container that is all there is opened. -/
theorem InMessage.openContainer (isArray : Bool) (h : InMessage cls r message n consumed count)
    (hdata : message.drop consumed = packedUInt22 length ++ rest) (hpositive : 0 < length) (hshort : length < 2 ^ 22)
    (hfits : (packedUInt22 length).length + length ≤ count) (hdepth : r.depth < readerMaxNestedObjects) :
    wp (openContainer cls isArray)
      (fun found r' ↦ found = true ∧ InMessage cls r' message n (consumed + (packedUInt22 length).length) length ∧
        Opened isArray (count - (packedUInt22 length).length - length) r r')
      (fun _ _ ↦ False) r := by
  have hdecodes : Decodes cls (getPackedUInt22 cls) (packedUInt22 length) length := by
    rw [← packedCount_eq hshort]
    exact decodes_packedCount hshort
  apply wp_call (h.decode hdata (by omega) hdecodes)
  · intro found r₁ h₁
    obtain ⟨rfl, hmoved, hin⟩ := h₁
    obtain ⟨hdepth_eq, heOfs_eq, hkinds_eq⟩ := hmoved.sameNesting
    have hopen := hin.openContainerOf isArray hpositive.ne' (hdepth_eq.trans_lt hdepth)
    have hmin : min found (count - (packedUInt22 found).length) = found := min_eq_left (by omega)
    rw [hmin] at hopen
    apply wp_mono hopen
    · intro opened r₂ h₂
      obtain ⟨hopened, hin', hdepth', heOfs', hkinds'⟩ := h₂
      rw [hdepth_eq] at hdepth' heOfs' hkinds'
      rw [heOfs_eq] at heOfs'
      rw [hkinds_eq] at hkinds'
      exact ⟨hopened, hin', hdepth', heOfs', hkinds'⟩
    · exact fun _ _ ↦ id
  · exact fun _ _ ↦ id

end DxApi.Reader
