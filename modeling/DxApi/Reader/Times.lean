import DxApi.Reader.Loads
import DxApi.Writer.Fields

/-!
# Compressed times

A time is written as a number of hours, of ten seconds, of seconds or of milliseconds from a base in
the past: the low five bits and the granularity in the first byte, the rest in two to five bytes more.
The reader puts the number together in the type of the load. For seconds that is a 32-bit type, which
the five low bits push the high bits out of.
-/

namespace DxApi.Reader

open Exec ByteMemory ByteOrder Writer

/-! ## The source -/

/-- The signed number of 64 bits with the same word. -/
def toInt64 (value : ℤ) : ℤ := signed 8 (unsigned 8 value)

/-- `COMPRESSED_TIMESTAMP_BASE_NS`. -/
def compressedTimestampBaseNs : ℤ := -70 * 366 * 24 * 3600000 * 1000000

/-- `TIME_NANOS_PER_SECOND`. -/
def timeNanosPerSecond : ℕ := timeNanosPerMillisecond * 1000

/-- `TIME_NANOS_PER_HOUR`. -/
def timeNanosPerHour : ℕ := timeNanosPerSecond * 3600

/-- `compressed_timestamp_size`. -/
def compressedTimestampSize (granularity : ℕ) : ℕ := [0, 5, 4, 3, 2, 0, 7, 8].getD granularity 0

/-- A number of units of `scale` nanoseconds, divided by `n`. -/
def scaledTime (n scale q : ℕ) : ℤ := toInt64 (q * ↑(scale / n) + compressedTimestampBaseNs / n)

/-- A number of nanoseconds from the base in milliseconds, divided as an unsigned number. -/
def nanoTime (n q : ℕ) : ℤ := toInt64 ↑(unsigned 8 (q + compressedTimestampBaseMs) / n)

/-- The part of `getCompressedNanoTimeDividedBy` behind the header. -/
def getTimeOf (cls : ReaderClass) (n lowBits granularity : ℕ) : ReaderM ℤ :=
  match granularity with
  | 1 => do
    let x ← loadLE cls 5
    return scaledTime n timeNanosPerMillisecond (x * 0x20 + lowBits)
  | 2 => do
    let x ← loadLE cls 4
    -- the shift is one of 32 bits
    return scaledTime n timeNanosPerSecond (x * 0x20 % 2 ^ 32 + lowBits)
  | 3 => do
    let x ← loadLE cls 3
    return scaledTime n (timeNanosPerSecond * 10) (x * 0x20 + lowBits)
  | 4 => do
    let x ← loadLE cls 2
    return scaledTime n timeNanosPerHour (x * 0x20 + lowBits)
  | 5 => if lowBits = 0 then return timestampNull else throw .invalidTimestamp
  | 6 => do
    let x ← loadLE cls 7
    return nanoTime n (x * 0x20 + lowBits)
  | 7 => do
    let x ← loadLE cls 8
    return nanoTime n (x * 0x20 % 2 ^ 64 + lowBits)
  | _ => throw .invalidTimestamp

/-- `getCompressedNanoTimeDividedBy`. -/
def getCompressedNanoTimeDividedBy (cls : ReaderClass) (n : ℕ) : ReaderM ℤ := do
  let header ← getByte cls
  getTimeOf cls n (header % 0x20) (header / 0x20)

/-- What a field reads as when the content ends before it is `null`. -/
def unlessEnd {α : Type} (null : α) (program : ReaderM α) : ReaderM α := do
  if ← endOfContent then
    return null
  else
    program

def readDateTimeNs (cls : ReaderClass) : ReaderM ℤ :=
  unlessEnd timestampNull (getCompressedNanoTimeDividedBy cls 1)

def readDateTimeMs (cls : ReaderClass) : ReaderM ℤ :=
  unlessEnd timestampNull (getCompressedNanoTimeDividedBy cls timeNanosPerMillisecond)

/-! ## At the end of the content -/

section

variable {α : Type} {program : ReaderM α} {null : α} {post : α → DataReader → Prop}
  {fail : ReadError → DataReader → Prop} {r : DataReader}

theorem wp_unlessEnd : wp (unlessEnd null program) post fail r ↔
    (r.dataPtr = r.contentEnd → post null r) ∧ (r.dataPtr ≠ r.contentEnd → wp program post fail r) := by
  simp only [unlessEnd, endOfContent, wp_bind, wp_get, wp_pure, wp_ite, decide_eq_true_eq]

theorem wp_atEnd (hend : r.dataPtr = r.contentEnd) (hpost : post null r) :
    wp (unlessEnd null program) post fail r :=
  wp_unlessEnd.mpr ⟨fun _ ↦ hpost, fun hmore ↦ absurd hend hmore⟩

theorem wp_beforeEnd (hmore : r.dataPtr ≠ r.contentEnd) (hprogram : wp program post fail r) :
    wp (unlessEnd null program) post fail r :=
  wp_unlessEnd.mpr ⟨fun hend ↦ absurd hend hmore, fun _ ↦ hprogram⟩

end

/-! ## Reading what was written -/

variable {cls : ReaderClass}

theorem decodes_loadLE {n value : ℕ} (hn : n ≤ 0x200) (hvalue : value < 256 ^ n) :
    Decodes cls (loadLE cls n) (littleEndian n value) value := by
  intro r rest left h hleft hroomy
  have hlength := length_littleEndian n value
  rw [hlength] at hleft ⊢
  have hwithin : Within cls (littleEndian n value ++ rest) left n := by
    rw [within_iff, List.length_append, hlength]
    exact ⟨by omega, hleft⟩
  apply wp_mono (loadLE_spec hn h hroomy)
  · intro found r' h'
    rw [List.take_left' hlength, List.drop_left' hlength, ofLittleEndian_littleEndian hvalue] at h'
    exact ⟨h'.1, h'.2.1⟩
  · exact fun _ _ hnot ↦ hnot hwithin

/-- The bytes of `q` units of a granularity. -/
def packedTime (granularity numBytes q : ℕ) : List UInt8 :=
  littleEndian numBytes (q % 0x20 + (q - q % 0x20) * 8 + granularity * 0x20)

/-- The first byte has the low bits and the granularity. -/
theorem packedTime_eq {granularity numBytes q : ℕ} (hgranularity : granularity < 8) :
    packedTime granularity (numBytes + 1) q =
      UInt8.ofNat (q % 0x20 + granularity * 0x20) :: littleEndian numBytes (q / 0x20) := by
  have hword : q % 0x20 + (q - q % 0x20) * 8 + granularity * 0x20 =
      q / 0x20 * 256 + (q % 0x20 + granularity * 0x20) := by omega
  have hhigh : (q / 0x20 * 256 + (q % 0x20 + granularity * 0x20)) / 256 = q / 0x20 := by omega
  rw [packedTime, hword, littleEndian, hhigh]
  congr 1
  apply UInt8.toNat_inj.mp
  rw [UInt8.toNat_ofNat', UInt8.toNat_ofNat']
  omega

/-- The header, then what the granularity says. -/
theorem decodes_packedTime {granularity numBytes q n : ℕ} {value : ℤ} (hgranularity : granularity < 8)
    (h : Decodes cls (getTimeOf cls n (q % 0x20) granularity) (littleEndian numBytes (q / 0x20)) value) :
    Decodes cls (getCompressedNanoTimeDividedBy cls n) (packedTime granularity (numBytes + 1) q) value := by
  have hheader : (UInt8.ofNat (q % 0x20 + granularity * 0x20)).toNat = q % 0x20 + granularity * 0x20 := by
    rw [UInt8.toNat_ofNat']
    omega
  have hlow : (q % 0x20 + granularity * 0x20) % 0x20 = q % 0x20 := by omega
  have hhigh : (q % 0x20 + granularity * 0x20) / 0x20 = granularity := by omega
  rw [packedTime_eq hgranularity]
  apply (decodes_getByte _).bind
  rwa [hheader, hlow, hhigh]

/-- The milliseconds in one unit of a granularity. -/
def timeUnit (granularity : ℕ) : ℕ := [0, 1, 1000, 10000, 3600000].getD granularity 0

/-- How `v` is written: as `q` units of a granularity. -/
structure PackedAs (v : ℤ) (granularity q : ℕ) : Prop where
  granularity_pos : 0 < granularity
  granularity_lt : granularity < 5
  units : v - compressedTimestampBaseMs = q * timeUnit granularity
  fits : q / 0x20 < 256 ^ compressedTimestampSize granularity
  seconds : granularity = 2 ↔
    (v - compressedTimestampBaseMs) % 1000 = 0 ∧ (v - compressedTimestampBaseMs) % 10000 ≠ 0

/-- What is left of `q` units in the type that they are put together in. -/
def unitsRead (granularity q : ℕ) : ℕ := if granularity = 2 then q % 2 ^ 32 else q

theorem decodes_getTimeOf {granularity q : ℕ} (n : ℕ) (hpos : 0 < granularity) (hlt : granularity < 5)
    (hfits : q / 0x20 < 256 ^ compressedTimestampSize granularity) :
    Decodes cls (getTimeOf cls n (q % 0x20) granularity)
      (littleEndian (compressedTimestampSize granularity) (q / 0x20))
      (scaledTime n (timeUnit granularity * timeNanosPerMillisecond) (unitsRead granularity q)) := by
  have hwhole : q / 0x20 * 0x20 + q % 0x20 = q := by omega
  have hcut : q / 0x20 * 0x20 % 2 ^ 32 + q % 0x20 = q % 2 ^ 32 := by omega
  have hcases : granularity = 1 ∨ granularity = 2 ∨ granularity = 3 ∨ granularity = 4 := by omega
  rcases hcases with rfl | rfl | rfl | rfl
  · have hload : Decodes cls (loadLE cls 5) _ _ := decodes_loadLE (by decide) hfits
    have hmillis := hload.map fun x ↦ scaledTime n timeNanosPerMillisecond (x * 0x20 + q % 0x20)
    rwa [hwhole] at hmillis
  · have hload : Decodes cls (loadLE cls 4) _ _ := decodes_loadLE (by decide) hfits
    have hseconds := hload.map fun x ↦ scaledTime n timeNanosPerSecond (x * 0x20 % 2 ^ 32 + q % 0x20)
    rwa [hcut] at hseconds
  · have hload : Decodes cls (loadLE cls 3) _ _ := decodes_loadLE (by decide) hfits
    have htens := hload.map fun x ↦ scaledTime n (timeNanosPerSecond * 10) (x * 0x20 + q % 0x20)
    rwa [hwhole] at htens
  · have hload : Decodes cls (loadLE cls 2) _ _ := decodes_loadLE (by decide) hfits
    have hhours := hload.map fun x ↦ scaledTime n timeNanosPerHour (x * 0x20 + q % 0x20)
    rwa [hwhole] at hhours

theorem decodes_packed {v : ℤ} {granularity q : ℕ} (n : ℕ) (h : PackedAs v granularity q) :
    Decodes cls (getCompressedNanoTimeDividedBy cls n)
      (packedTime granularity (compressedTimestampSize granularity + 1) q)
      (scaledTime n (timeUnit granularity * timeNanosPerMillisecond) (unitsRead granularity q)) := by
  have hlt := h.granularity_lt
  apply decodes_packedTime (by omega)
  exact decodes_getTimeOf n h.granularity_pos hlt h.fits

/-! ## Writing -/

/-- What a call wrote. -/
def written (w w' : DataWriter) : List UInt8 := slice w'.mem w.dataPtr w'.dataPtr

theorem putBE_written (data beyond : List UInt8) {w : DataWriter} :
    wp (putBE (data ++ beyond) data.length) (fun _ w' ↦ written w w' = data) (fun _ _ ↦ True) w := by
  rw [putBE, wp_bind, wp_get, wp_bind, wp_set, wp_ite]
  constructor
  · intro _
    trivial
  · intro _
    exact slice_store_append w.mem w.dataPtr data beyond

theorem putLE_written {value size : ℕ} (hsize : size ≤ 8) {w : DataWriter} :
    wp (putLE value size) (fun _ w' ↦ written w w' = littleEndian size value) (fun _ _ ↦ True) w := by
  obtain ⟨more, hmore⟩ := Nat.exists_eq_add_of_le hsize
  have hbytes := putBE_written (littleEndian size value) (littleEndian more (value / 256 ^ size)) (w := w)
  rwa [← littleEndian_add, ← hmore, length_littleEndian] at hbytes

theorem packTime_written {granularity numBytes q : ℕ} (hsize : numBytes ≤ 8) {w : DataWriter} :
    wp (packTime granularity numBytes q)
      (fun _ w' ↦ written w w' = packedTime granularity numBytes q ∧ q < 2 ^ (numBytes * 8 - 3))
      (fun _ _ ↦ True) w := by
  rw [packTime, wp_ite]
  constructor
  · exact fun _ ↦ trivial
  · intro hfits
    apply wp_mono (putLE_written hsize)
    · exact fun _ _ hbytes ↦ ⟨hbytes, not_le.mp hfits⟩
    · exact fun _ _ _ ↦ trivial

/-- The bytes of a time that is not null. -/
def WrittenAs (v : ℤ) (data : List UInt8) : Prop :=
  ∃ granularity q, PackedAs v granularity q ∧
    data = packedTime granularity (compressedTimestampSize granularity + 1) q

theorem packTime_writtenAs {v : ℤ} {granularity q : ℕ} (hpos : 0 < granularity) (hlt : granularity < 5)
    (hunits : v - compressedTimestampBaseMs = q * timeUnit granularity)
    (hseconds : granularity = 2 ↔
      (v - compressedTimestampBaseMs) % 1000 = 0 ∧ (v - compressedTimestampBaseMs) % 10000 ≠ 0)
    {w : DataWriter} :
    wp (packTime granularity (compressedTimestampSize granularity + 1) q)
      (fun _ w' ↦ WrittenAs v (written w w')) (fun _ _ ↦ True) w := by
  have hcases : granularity = 1 ∨ granularity = 2 ∨ granularity = 3 ∨ granularity = 4 := by omega
  have hsize : compressedTimestampSize granularity + 1 ≤ 8 := by
    rcases hcases with rfl | rfl | rfl | rfl <;> decide
  have hfits (h : q < 2 ^ ((compressedTimestampSize granularity + 1) * 8 - 3)) :
      q / 0x20 < 256 ^ compressedTimestampSize granularity := by
    rcases hcases with rfl | rfl | rfl | rfl <;> norm_num [compressedTimestampSize] at h ⊢ <;> omega
  apply wp_mono (packTime_written hsize)
  · intro _ w' h
    exact ⟨granularity, q, ⟨hpos, hlt, hunits, hfits h.2, hseconds⟩, h.1⟩
  · exact fun _ _ _ ↦ trivial

theorem putCompressedMillisecondTime_writtenAs {v : ℤ} (hlow : -2 ^ 63 ≤ v) (hhigh : v < 2 ^ 63)
    {w : DataWriter} :
    wp (putCompressedMillisecondTime v) (fun _ w' ↦ WrittenAs v (written w w')) (fun _ _ ↦ True) w := by
  rw [putCompressedMillisecondTime, wp_ite]
  constructor
  · exact fun _ ↦ trivial
  intro hsmall
  have ht : v - compressedTimestampBaseMs = word 8 (v - compressedTimestampBaseMs) := by
    simp only [word, compressedTimestampBaseMs] at hsmall ⊢
    omega
  generalize word 8 (v - compressedTimestampBaseMs) = t at ht
  rw [wp_ite]
  constructor
  · intro htens
    rw [wp_ite]
    constructor
    · intro hhours
      exact packTime_writtenAs (by decide) (by decide) (by rw [ht]; simp only [timeUnit]; norm_num; omega) (by omega)
    · intro _
      exact packTime_writtenAs (by decide) (by decide) (by rw [ht]; simp only [timeUnit]; norm_num; omega) (by omega)
  · intro hfine
    rw [wp_ite]
    constructor
    · intro hseconds
      exact packTime_writtenAs (by decide) (by decide) (by rw [ht]; simp only [timeUnit]; norm_num; omega) (by omega)
    · intro hmillis
      exact packTime_writtenAs (by decide) (by decide) (by rw [ht]; simp only [timeUnit]; norm_num) (by omega)

/-! ## The trip -/

/-- Inside a content that goes on, a read takes `data`, whatever follows it, and returns `value`. -/
def ReadsField {α : Type} (program : ReaderClass → ReaderM α) (data : List UInt8) (value : α) : Prop :=
  ∀ cls r rest left, Ready cls r r.dataPtr (data ++ rest) left → (cls.isMsg → (data.length : ℤ) ≤ left) →
    Roomy r → r.dataPtr ≠ r.contentEnd → wp (program cls)
      (fun found r' ↦ found = value ∧ Took cls r r' rest (left - data.length)) (fun _ _ ↦ False) r

theorem readsField_of_decodes {α : Type} {program : ReaderClass → ReaderM α} {value : α} {data : List UInt8}
    (null : α) (h : ∀ cls, Decodes cls (program cls) data value) :
    ReadsField (fun cls ↦ unlessEnd null (program cls)) data value := by
  intro cls r rest left hready hleft hroomy hmore
  exact wp_beforeEnd hmore (h cls r rest left hready hleft hroomy)

/-- The same bytes are not read as two values. -/
theorem ReadsField.unique {α : Type} {program : ReaderClass → ReaderM α} {data : List UInt8} {value other : α}
    (h : ReadsField program data value) (h' : ReadsField program data other) (hdata : data ≠ [])
    (hsmall : data.length < 2 ^ 32) : value = other := by
  have hahead := messageReader_ahead hsmall
  obtain ⟨left, hready, hleft⟩ := hahead.ready
  have hready' : Ready .msg (messageReader data) (messageReader data).dataPtr (data ++ []) left := by
    rwa [List.append_nil]
  have hpositive := List.length_pos_of_ne_nil hdata
  have hlimit := (hready.contentEnd_eq rfl).1
  have henough := hleft rfl
  have hmore : (messageReader data).dataPtr ≠ (messageReader data).contentEnd := by
    rw [hlimit]
    omega
  have hboth := wp_and (h .msg _ [] left hready' (fun _ ↦ henough) hahead.roomy hmore)
    (h' .msg _ [] left hready' (fun _ ↦ henough) hahead.roomy hmore)
  unfold wp at hboth
  split at hboth
  · exact hboth.1.1.symm.trans hboth.2.1
  · exact hboth.1.elim

/-- The bytes of a millisecond value are as many as the granularity says, and read back they are the
value, in milliseconds and in nanoseconds. -/
structure TimeSurvives (v : ℤ) (data : List UInt8) : Prop where
  length : ∃ header rest, data = header :: rest ∧ rest.length = compressedTimestampSize (header.toNat / 0x20)
  millis : ReadsField readDateTimeMs data v
  null : v = timestampNull → ReadsField readDateTimeNs data timestampNull
  nanos : -2 ^ 63 ≤ v * 1000000 → v * 1000000 < 2 ^ 63 → ReadsField readDateTimeNs data (v * 1000000)

/-- A whole number of seconds from the base, not of ten seconds, that 32 bits do not hold. -/
def SecondsOverflow (v : ℤ) : Prop :=
  let t := v - compressedTimestampBaseMs
  t % 1000 = 0 ∧ t % 10000 ≠ 0 ∧ 2 ^ 32 * 1000 ≤ t

instance (v : ℤ) : Decidable (SecondsOverflow v) :=
  inferInstanceAs (Decidable (_ ∧ _ ∧ _))

theorem toInt64_eq {value : ℤ} (hlow : -2 ^ 63 ≤ value) (hhigh : value < 2 ^ 63) : toInt64 value = value :=
  signed_unsigned (by decide) hlow hhigh

theorem readsField_millis {v : ℤ} {granularity q : ℕ} (h : PackedAs v granularity q) :
    ReadsField readDateTimeMs (packedTime granularity (compressedTimestampSize granularity + 1) q)
      (toInt64 (unitsRead granularity q * timeUnit granularity + compressedTimestampBaseMs)) := by
  have hdecodes (cls : ReaderClass) := @decodes_packed cls _ _ _ timeNanosPerMillisecond h
  have hscale : timeUnit granularity * timeNanosPerMillisecond / timeNanosPerMillisecond = timeUnit granularity :=
    Nat.mul_div_cancel _ (by decide)
  have hbase : compressedTimestampBaseNs / timeNanosPerMillisecond = compressedTimestampBaseMs := by decide
  simp only [scaledTime, hscale, hbase] at hdecodes
  exact readsField_of_decodes timestampNull hdecodes

theorem readsField_nanos {v : ℤ} {granularity q : ℕ} (h : PackedAs v granularity q) :
    ReadsField readDateTimeNs (packedTime granularity (compressedTimestampSize granularity + 1) q)
      (toInt64 ((unitsRead granularity q * timeUnit granularity + compressedTimestampBaseMs) * 1000000)) := by
  have hdecodes (cls : ReaderClass) := @decodes_packed cls _ _ _ 1 h
  have hvalue : (unitsRead granularity q : ℤ) * ↑(timeUnit granularity * timeNanosPerMillisecond / 1) +
      compressedTimestampBaseNs / (1 : ℕ) =
      (unitsRead granularity q * timeUnit granularity + compressedTimestampBaseMs) * 1000000 := by
    rw [Nat.div_one, Nat.cast_one, Int.ediv_one, Nat.cast_mul]
    simp only [timeNanosPerMillisecond, compressedTimestampBaseNs, compressedTimestampBaseMs]
    push_cast
    ring
  simp only [scaledTime, hvalue] at hdecodes
  exact readsField_of_decodes timestampNull hdecodes

theorem length_packedTime {granularity q : ℕ} (hlt : granularity < 5) :
    ∃ header rest, packedTime granularity (compressedTimestampSize granularity + 1) q = header :: rest ∧
      rest.length = compressedTimestampSize (header.toNat / 0x20) := by
  refine ⟨_, _, packedTime_eq (by omega), ?_⟩
  have hheader : (UInt8.ofNat (q % 0x20 + granularity * 0x20)).toNat / 0x20 = granularity := by
    rw [UInt8.toNat_ofNat']
    omega
  rw [hheader, length_littleEndian]

theorem length_packedTime_lt {granularity q : ℕ} (hlt : granularity < 5) :
    (packedTime granularity (compressedTimestampSize granularity + 1) q).length < 2 ^ 32 := by
  have hcases : granularity = 0 ∨ granularity = 1 ∨ granularity = 2 ∨ granularity = 3 ∨ granularity = 4 := by omega
  rw [packedTime, length_littleEndian]
  rcases hcases with rfl | rfl | rfl | rfl | rfl <;> decide

theorem unitsRead_le {granularity q : ℕ} : unitsRead granularity q ≤ q := by
  rw [unitsRead]
  split
  · exact Nat.mod_le q (2 ^ 32)
  · exact le_rfl

/-- The time that is read is not negative, and no later than the one that was packed. -/
theorem unitsRead_mul_le (granularity q : ℕ) :
    0 ≤ (unitsRead granularity q : ℤ) * timeUnit granularity ∧
      (unitsRead granularity q : ℤ) * timeUnit granularity ≤ q * timeUnit granularity :=
  ⟨Int.mul_nonneg (by omega) (by omega),
    Int.mul_le_mul_of_nonneg_right (by exact_mod_cast unitsRead_le) (by omega)⟩

/-- Seconds are lost if and only if there are too many of them. -/
theorem unitsRead_eq_iff {v : ℤ} {granularity q : ℕ} (h : PackedAs v granularity q) :
    unitsRead granularity q = q ↔ ¬ SecondsOverflow v := by
  have hunits := h.units
  rw [unitsRead]
  split
  next hseconds =>
    have ht := h.seconds.mp hseconds
    have hscale : timeUnit granularity = 1000 := by rw [hseconds]; rfl
    rw [hscale] at hunits
    rw [SecondsOverflow]
    constructor
    · intro hsame hover
      have hlt := Nat.mod_lt q (show 0 < 2 ^ 32 by decide)
      omega
    · intro hnot
      have hsmall : q < 2 ^ 32 := by
        by_contra hbig
        exact hnot ⟨ht.1, ht.2, by omega⟩
      exact Nat.mod_eq_of_lt hsmall
  next hother => exact iff_of_true rfl fun hover ↦ hother (h.seconds.mpr ⟨hover.1, hover.2.1⟩)

theorem timeUnit_pos {granularity : ℕ} (hpos : 0 < granularity) (hlt : granularity < 5) :
    0 < timeUnit granularity := by
  have hcases : granularity = 1 ∨ granularity = 2 ∨ granularity = 3 ∨ granularity = 4 := by omega
  rcases hcases with rfl | rfl | rfl | rfl <;> decide

/-- A time that is not null survives if and only if no seconds are lost. -/
theorem PackedAs.survives_iff {v : ℤ} {granularity q : ℕ} (h : PackedAs v granularity q)
    (hlow : -2 ^ 63 ≤ v) (hhigh : v < 2 ^ 63) (hnull : v ≠ timestampNull) :
    TimeSurvives v (packedTime granularity (compressedTimestampSize granularity + 1) q) ↔
      ¬ SecondsOverflow v := by
  have hmillis := readsField_millis h
  have hnanos := readsField_nanos h
  have hunits := h.units
  obtain ⟨header, rest, hdata, hrest⟩ := length_packedTime (q := q) h.granularity_lt
  rw [← unitsRead_eq_iff h]
  constructor
  · intro hsurvives
    have hne : packedTime granularity (compressedTimestampSize granularity + 1) q ≠ [] := by
      rw [hdata]
      exact List.cons_ne_nil _ _
    have hread := hsurvives.millis.unique hmillis hne (length_packedTime_lt h.granularity_lt)
    have hpos := timeUnit_pos h.granularity_pos h.granularity_lt
    obtain ⟨hnonneg, hle⟩ := unitsRead_mul_le granularity q
    have hbase : -2 ^ 63 ≤ compressedTimestampBaseMs := by decide
    rw [toInt64_eq (by omega) (by omega)] at hread
    have hproduct : (unitsRead granularity q : ℤ) * timeUnit granularity = q * timeUnit granularity := by omega
    exact_mod_cast Int.eq_of_mul_eq_mul_right (by omega) hproduct
  · intro hsame
    have hvalue : (q : ℤ) * timeUnit granularity + compressedTimestampBaseMs = v := by omega
    rw [hsame, hvalue] at hmillis hnanos
    refine ⟨⟨header, rest, hdata, hrest⟩, ?_, fun hv ↦ absurd hv hnull, fun hlow' hhigh' ↦ ?_⟩
    · rwa [toInt64_eq hlow hhigh] at hmillis
    · rwa [toInt64_eq hlow' hhigh'] at hnanos

/-- Null is one byte. -/
theorem null_survives : TimeSurvives timestampNull [0xA0] := by
  have hdecodes (cls : ReaderClass) (n : ℕ) :
      Decodes cls (getCompressedNanoTimeDividedBy cls n) [0xA0] timestampNull := by
    have hrest : Decodes cls (getTimeOf cls n 0 5) [] timestampNull := decodes_pure timestampNull
    have hheader : Decodes cls (getCompressedNanoTimeDividedBy cls n) ([0xA0] ++ []) timestampNull :=
      (decodes_getByte 0xA0).bind hrest
    rwa [List.append_nil] at hheader
  constructor
  · exact ⟨0xA0, [], rfl, rfl⟩
  · exact readsField_of_decodes timestampNull fun cls ↦ hdecodes cls _
  · exact fun _ ↦ readsField_of_decodes timestampNull fun cls ↦ hdecodes cls _
  · intro hlow
    exact absurd hlow (by decide)

/-- A time that is written survives if and only if no seconds are lost. -/
theorem writeCompressedTime_survives_iff (value : Int64) (w : DataWriter) :
    wp (writeCompressedTime value.toInt)
      (fun _ w' ↦ TimeSurvives value.toInt (written w w') ↔ ¬ SecondsOverflow value.toInt) (fun _ _ ↦ True) w := by
  have hlow := value.le_toInt
  have hhigh := value.toInt_lt
  generalize value.toInt = v at hlow hhigh
  rw [writeCompressedTime, wp_ite]
  constructor
  · intro hnull
    apply wp_mono (putBE_written [0xA0] [])
    · intro _ w' hbytes
      rw [hbytes, hnull]
      exact iff_of_true null_survives (by decide)
    · exact fun _ _ _ ↦ trivial
  · intro hvalue
    apply wp_mono (putCompressedMillisecondTime_writtenAs hlow hhigh)
    · intro _ w' ⟨granularity, q, hpacked, hbytes⟩
      rw [hbytes]
      exact hpacked.survives_iff hlow hhigh hvalue
    · exact fun _ _ _ ↦ trivial

/-- A second of December 2035 is read as one 2^32 seconds earlier. -/
theorem compressedTime_lost :
    ¬ ∀ (value : Int64) (w : DataWriter),
      wp (writeCompressedTime value.toInt) (fun _ w' ↦ TimeSurvives value.toInt (written w w'))
        (fun _ _ ↦ True) w := by
  intro hall
  let w : DataWriter := ⟨fun _ ↦ 0, 0, 16, 0, 0, fun _ ↦ 0, fun _ ↦ false, fun _ ↦ 0, []⟩
  have hvalue : (2081399296000 : Int64).toInt = 2081399296000 := by decide
  have hsurvives := hall 2081399296000 w
  have hnot : ¬ (2081399296000 : ℤ) = timestampNull := by decide
  rw [hvalue, writeCompressedTime, if_neg hnot] at hsurvives
  have hwritten := putCompressedMillisecondTime_writtenAs (v := 2081399296000) (by decide) (by decide) (w := w)
  have hreturns : returns (putCompressedMillisecondTime 2081399296000) w = true := by decide +kernel
  rw [wp_ok (eq_ok_of_returns hreturns)] at hsurvives hwritten
  obtain ⟨granularity, q, hpacked, hbytes⟩ := hwritten
  rw [hbytes, hpacked.survives_iff (by decide) (by decide) hnot] at hsurvives
  exact hsurvives (by decide)

end DxApi.Reader
