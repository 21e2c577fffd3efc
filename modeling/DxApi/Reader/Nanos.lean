import DxApi.Reader.Trips
import DxApi.Writer.ExactDivision

/-!
# Times in nanoseconds

A time that is no whole number of milliseconds is written as nanoseconds, in seven or eight bytes
behind the header. The reader divides by the number of nanoseconds in its unit after it has added the
base to an unsigned number, so that the division is that of an unsigned number as well: before 1970
the time in milliseconds is not the time in nanoseconds divided.
-/

namespace DxApi.Reader

open Exec ByteMemory ByteOrder Writer

variable {cls : ReaderClass}

/-- The bytes of a number of nanoseconds from the base. -/
def nanoData (t : ℕ) : List UInt8 :=
  if 2 ^ 61 ≤ t then UInt8.ofNat (7 * 0x20 + t % 0x20) :: littleEndian 8 (t / 0x20)
  else UInt8.ofNat (6 * 0x20 + t % 0x20) :: littleEndian 7 (t / 0x20)

theorem toNat_nanoHeader {granularity t : ℕ} (hgranularity : granularity < 8) :
    (UInt8.ofNat (granularity * 0x20 + t % 0x20)).toNat = granularity * 0x20 + t % 0x20 := by
  rw [UInt8.toNat_ofNat']
  omega

theorem decodes_nanoData {t : ℕ} (n : ℕ) (ht : t < 2 ^ 63) :
    Decodes cls (getCompressedNanoTimeDividedBy cls n) (nanoData t) (nanoTime n t) := by
  have hwhole : t / 0x20 * 0x20 + t % 0x20 = t := by omega
  rw [nanoData]
  split
  · apply decodes_header
    rw [toNat_nanoHeader (by decide)]
    have hlow : (7 * 0x20 + t % 0x20) % 0x20 = t % 0x20 := by omega
    have hhigh : (7 * 0x20 + t % 0x20) / 0x20 = 7 := by omega
    have hcut : t / 0x20 * 0x20 % 2 ^ 64 + t % 0x20 = t := by omega
    rw [hlow, hhigh]
    have hload : Decodes cls (loadLE cls 8) _ (t / 0x20) := decodes_loadLE (by decide) (by omega)
    have hnanos := hload.map fun x ↦ nanoTime n (x * 0x20 % 2 ^ 64 + t % 0x20)
    rwa [hcut] at hnanos
  · apply decodes_header
    rw [toNat_nanoHeader (by decide)]
    have hlow : (6 * 0x20 + t % 0x20) % 0x20 = t % 0x20 := by omega
    have hhigh : (6 * 0x20 + t % 0x20) / 0x20 = 6 := by omega
    rw [hlow, hhigh]
    have hload : Decodes cls (loadLE cls 7) _ (t / 0x20) := decodes_loadLE (by decide) (by omega)
    have hnanos := hload.map fun x ↦ nanoTime n (x * 0x20 + t % 0x20)
    rwa [hwhole] at hnanos

theorem exists_nanosecondTimePatch {v : ℤ} (ht : Writer.word 8 (v - compressedTimestampBaseMs) < 2 ^ 63) :
    ∃ p, nanosecondTimePatch v = some p ∧ p.Holds (nanoData (Writer.word 8 (v - compressedTimestampBaseMs))) := by
  rw [nanosecondTimePatch, nanoData]
  generalize Writer.word 8 (v - compressedTimestampBaseMs) = t at ht
  simp only [if_neg (not_le.mpr ht)]
  split
  · exact ⟨_, rfl, (Patch.holds_byte _).append (Patch.holds_littleEndian _ le_rfl)⟩
  · exact ⟨_, rfl, (Patch.holds_byte _).append (Patch.holds_littleEndian _ (by decide))⟩

/-- What nanoseconds are read as, in a unit of `n` nanoseconds. -/
theorem nanoTime_eq {v : ℤ} {t : ℕ} (n : ℕ) (h : v - compressedTimestampBaseMs = t) :
    nanoTime n t = toInt64 (unsigned 8 v / n : ℕ) := by
  have hsum : (t : ℤ) + compressedTimestampBaseMs = v := by omega
  rw [nanoTime, hsum]

/-- The bytes are read as `v` nanoseconds and as the milliseconds of it, rounded towards zero. -/
def NanosSurvive (v : ℤ) (data : List UInt8) : Prop :=
  ReadsField readDateTimeNs data v ∧ ReadsField readDateTimeMs data (v.tdiv 1000000)

theorem nanoData_ne_nil (t : ℕ) : nanoData t ≠ [] := by
  rw [nanoData]
  split <;> exact List.cons_ne_nil _ _

theorem length_nanoData_le (t : ℕ) : (nanoData t).length ≤ 9 := by
  rw [nanoData]
  split <;> rw [List.length_cons, length_littleEndian]
  decide

theorem readsField_nanoData_ns {v : ℤ} {t : ℕ} (h : v - compressedTimestampBaseMs = t) (ht : t < 2 ^ 63)
    (hlow : -2 ^ 63 ≤ v) (hhigh : v < 2 ^ 63) : ReadsField readDateTimeNs (nanoData t) v := by
  have hread := readsField_of_decodes timestampNull fun cls ↦ @decodes_nanoData cls _ 1 ht
  have hvalue : nanoTime 1 t = v := by
    calc
      _ = toInt64 (unsigned 8 v) := by rw [nanoTime_eq 1 h, Nat.div_one]
      _ = toInt64 v := by
        rw [toInt64, toInt64]
        congr 1
        simp only [unsigned]
        omega
      _ = v := toInt64_eq hlow hhigh
  rwa [hvalue] at hread

/-- Milliseconds are read by a division of the unsigned number. -/
theorem readsField_nanoData_ms {v : ℤ} {t : ℕ} (h : v - compressedTimestampBaseMs = t) (ht : t < 2 ^ 63) :
    ReadsField readDateTimeMs (nanoData t) ((v % 2 ^ 64) / 1000000) := by
  have hread := readsField_of_decodes timestampNull fun cls ↦
    @decodes_nanoData cls _ timeNanosPerMillisecond ht
  have hword : ((unsigned 8 v / timeNanosPerMillisecond : ℕ) : ℤ) = (v % 2 ^ 64) / 1000000 := by
    simp only [unsigned, timeNanosPerMillisecond]
    omega
  have hvalue : nanoTime timeNanosPerMillisecond t = (v % 2 ^ 64) / 1000000 := by
    rw [nanoTime_eq _ h, hword, toInt64_eq (by omega) (by omega)]
  rwa [hvalue] at hread

/-- The unsigned division is the signed one if and only if the number is not negative. -/
theorem unsigned_div_eq_iff {v : ℤ} (hlow : -2 ^ 63 ≤ v) (hhigh : v < 2 ^ 63) :
    (v % 2 ^ 64) / 1000000 = v.tdiv 1000000 ↔ 0 ≤ v := by
  constructor
  · intro heq
    by_contra hneg
    have hdiv : v.tdiv 1000000 ≤ 0 := by
      rw [← Int.neg_neg v, Int.neg_tdiv, Int.tdiv_eq_ediv_of_nonneg (by omega)]
      omega
    omega
  · intro hnonneg
    rw [Int.tdiv_eq_ediv_of_nonneg hnonneg, Int.emod_eq_of_lt hnonneg (by omega)]

theorem nanoData_survives_iff {v : ℤ} {t : ℕ} (h : v - compressedTimestampBaseMs = t) (ht : t < 2 ^ 63)
    (hlow : -2 ^ 63 ≤ v) (hhigh : v < 2 ^ 63) : NanosSurvive v (nanoData t) ↔ 0 ≤ v := by
  have hns := readsField_nanoData_ns h ht hlow hhigh
  have hms := readsField_nanoData_ms h ht
  have hlength := length_nanoData_le t
  rw [← unsigned_div_eq_iff hlow hhigh]
  constructor
  · exact fun hboth ↦ hms.unique hboth.2 (nanoData_ne_nil t) (by omega)
  · intro hsame
    rw [hsame] at hms
    exact ⟨hns, hms⟩

/-- Null is null in both units. -/
theorem null_not_survives : ¬ NanosSurvive timestampNull [0xA0] := by
  intro hboth
  have hnull := null_survives.millis.unique hboth.2 (List.cons_ne_nil _ _) (by decide)
  exact absurd hnull (by decide)

/-- Milliseconds are read as no earlier time than the base. -/
theorem base_le_of_readsField {w v : ℤ} {data : List UInt8} (hw : WrittenAs w data) (hhigh : w < 2 ^ 63)
    (hread : ReadsField readDateTimeMs data v) : compressedTimestampBaseMs ≤ v := by
  obtain ⟨granularity, q, hpacked, rfl⟩ := hw
  have hunits := hpacked.units
  have hpos := timeUnit_pos hpacked.granularity_pos hpacked.granularity_lt
  obtain ⟨hnonneg, hle⟩ := unitsRead_mul_le granularity q
  have hbase : -2 ^ 63 ≤ compressedTimestampBaseMs := by decide
  obtain ⟨header, rest, hdata, -⟩ := length_packedTime (q := q) hpacked.granularity_lt
  have hne : packedTime granularity (compressedTimestampSize granularity + 1) q ≠ [] := by
    rw [hdata]
    exact List.cons_ne_nil _ _
  have hfound := hread.unique (readsField_millis hpacked) hne (length_packedTime_lt hpacked.granularity_lt)
  rw [toInt64_eq (by omega) (by omega)] at hfound
  omega

/-- A value near the smallest one, which passes for a multiple, is written as a time after 1970. -/
theorem milliseconds_not_survive {v w : ℤ} {data : List UInt8} (hv : v < -2 ^ 62) (hw : WrittenAs w data)
    (hhigh : w < 2 ^ 63) : ¬ NanosSurvive v data := by
  intro hboth
  have hle := base_le_of_readsField hw hhigh hboth.2
  have hdiv : v.tdiv 1000000 < compressedTimestampBaseMs := by
    rw [← Int.neg_neg v, Int.neg_tdiv, Int.tdiv_eq_ediv_of_nonneg (by omega), compressedTimestampBaseMs]
    omega
  omega

/-- A time that is no whole number of milliseconds is read in both units as the same time if and only
if it is not before 1970. -/
theorem writeCompressedNanoTime_survives_iff (value : Int64) (hfine : ¬ 1000000 ∣ value.toInt) (w : DataWriter) :
    wp (writeCompressedNanoTime value.toInt)
      (fun _ w' ↦ NanosSurvive value.toInt (written w w') ↔ 0 ≤ value.toInt) (fun _ _ ↦ True) w := by
  have hlow := value.le_toInt
  have hhigh := value.toInt_lt
  generalize value.toInt = v at hlow hhigh hfine
  rw [writeCompressedNanoTime, wp_ite]
  constructor
  · intro hnull
    apply wp_mono (putBE_written [0xA0] [])
    · intro _ w' hbytes
      rw [hbytes, hnull]
      exact iff_of_false null_not_survives (by decide)
    · exact fun _ _ _ ↦ trivial
  intro _
  rw [wp_ite]
  constructor
  · intro hdivisible
    have hv := eq_of_fastDivisibleBy hlow hhigh hfine hdivisible
    have hmillis : fastDivideBy v timeNanosPerMillisecond = 9223372036855 := by
      rw [hv]
      decide
    rw [hmillis]
    apply wp_mono (putCompressedMillisecondTime_writtenAs (by decide) (by decide))
    · exact fun _ _ hwritten ↦
        iff_of_false (milliseconds_not_survive (by omega) hwritten (by decide)) (by omega)
    · exact fun _ _ _ ↦ trivial
  · intro _
    have hhold (ht : Writer.word 8 (v - compressedTimestampBaseMs) < 2 ^ 63) :
        v - compressedTimestampBaseMs = Writer.word 8 (v - compressedTimestampBaseMs) := by
      simp only [Writer.word, compressedTimestampBaseMs] at ht ⊢
      omega
    apply wp_mono (wp_of_puts (Writer.word 8 (v - compressedTimestampBaseMs) < 2 ^ 63)
      (fun data ↦ NanosSurvive v data ↔ 0 ≤ v) 9 (puts_putCompressedNanosecondTime v w) ?_ ?_)
    · exact fun _ _ h ↦ h.2
    · exact fun _ _ _ ↦ trivial
    · intro hbig
      exact if_pos (not_lt.mp hbig)
    · intro ht
      obtain ⟨p, hp, hholds⟩ := exists_nanosecondTimePatch ht
      exact ⟨p, _, hp, hholds, length_nanoData_le _, nanoData_survives_iff (hhold ht) ht hlow hhigh⟩

/-- A nanosecond after 1970. -/
theorem nanosecond_survives :
    let w : DataWriter := ⟨fun _ ↦ 0, 0, 16, 0, 0, fun _ ↦ 0, fun _ ↦ false, fun _ ↦ 0, []⟩
    ¬ 1000000 ∣ (1 : Int64).toInt ∧
      wp (writeCompressedNanoTime (1 : Int64).toInt)
        (fun _ w' ↦ NanosSurvive (1 : Int64).toInt (written w w') ↔ 0 ≤ (1 : Int64).toInt) (fun _ _ ↦ True) w :=
  ⟨by decide, writeCompressedNanoTime_survives_iff 1 (by decide) _⟩

/-- The nanosecond before 1970 is read as 18446744073709 milliseconds after it. -/
theorem nanosecond_before_1970_lost :
    ¬ ∀ (value : Int64) (w : DataWriter), ¬ 1000000 ∣ value.toInt →
      wp (writeCompressedNanoTime value.toInt) (fun _ w' ↦ NanosSurvive value.toInt (written w w'))
        (fun _ _ ↦ True) w := by
  intro hall
  let w : DataWriter := ⟨fun _ ↦ 0, 0, 16, 0, 0, fun _ ↦ 0, fun _ ↦ false, fun _ ↦ 0, []⟩
  have hsurvives := hall (-1) w (by decide)
  have hreturns : writeCompressedNanoTime (-1 : Int64).toInt w =
      .ok () (finalState (writeCompressedNanoTime (-1 : Int64).toInt) w) := eq_ok_of_returns (by decide +kernel)
  have hbytes : written w (finalState (writeCompressedNanoTime (-1 : Int64).toInt) w) =
      nanoData 2213567999999 := by decide +kernel
  rw [wp_ok hreturns, hbytes] at hsurvives
  have hvalue : (-1 : Int64).toInt = -1 := by decide
  rw [hvalue, nanoData_survives_iff (by decide) (by decide) (by decide) (by decide)] at hsurvives
  exact absurd hsurvives (by decide)

end DxApi.Reader
