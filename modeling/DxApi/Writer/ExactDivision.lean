import DxApi.Writer.Container
import DxApi.Writer.Fields
import Mathlib.Tactic.Linarith
import Mathlib.Tactic.Ring

/-!
# Division of signed numbers by unsigned constants

A signed number is divided by adding the largest multiple of the divisor that a signed number holds, which
is to make it one that is not negative, and taking the quotient of the multiple away again. Below the
smallest multiple the sum is negative and wraps around.
-/

namespace DxApi.Writer

open ByteMemory

/-- The test finds the multiples, and the quotient is rounded down. -/
def DividesExactly (divided : ℤ) (divisor : ℕ) : Prop :=
  (fastDivisibleBy divided divisor = true ↔ (divisor : ℤ) ∣ divided) ∧ fastDivideBy divided divisor = divided / divisor

/-- The millisecond form is taken for whole milliseconds, with their number. -/
def WritesMillis (value : ℤ) : Prop :=
  writeCompressedNanoTime value =
    if (timeNanosPerMillisecond : ℤ) ∣ value then putCompressedMillisecondTime (value / timeNanosPerMillisecond)
    else if value = timestampNull then putByte 0xA0
    else putCompressedNanosecondTime value

variable {x : ℤ} {d : ℕ}

theorem signed64_eq {value : ℤ} (hlow : -2 ^ 63 ≤ value) (hhigh : value < 2 ^ 63) : signed64 value = value := by
  apply Int.bmod_eq_of_le
  · exact hlow
  · exact hhigh

theorem word_eight {value wrapped : ℤ} (hlow : 0 ≤ wrapped) (hhigh : wrapped < 2 ^ 64)
    (hsame : value % 2 ^ 64 = wrapped % 2 ^ 64) : (word 8 value : ℤ) = wrapped := by
  rw [word]
  omega

theorem cast_maxMultiple (d : ℕ) : (maxMultiple d : ℤ) = (2 ^ 63 - 1) / (d : ℤ) * d := by
  rw [maxMultiple]
  push_cast
  rfl

theorem maxMultiple_le (d : ℕ) : maxMultiple d ≤ 2 ^ 63 - 1 := Nat.div_mul_le_self _ _

/-- The quotient of the sum, without the multiple, is that of the number that was added to it. -/
theorem fastDivideBy_eq {shifted : ℤ} (hpos : 0 < d) (hword : (word 8 (x + maxMultiple d) : ℤ) = shifted + maxMultiple d)
    (hlow : -2 ^ 63 ≤ shifted / d) (hhigh : shifted / d < 2 ^ 63) : fastDivideBy x d = shifted / d := by
  have hd : (d : ℤ) ≠ 0 := by omega
  have hquotient : (word 8 (x + maxMultiple d) : ℤ) / d - (2 ^ 63 - 1) / d = shifted / d := by
    rw [hword, cast_maxMultiple, Int.add_mul_ediv_right _ _ hd]
    ring
  rw [fastDivideBy, hquotient, signed64_eq hlow hhigh]

theorem ediv_bounds (hlow : -2 ^ 63 ≤ x) (hhigh : x < 2 ^ 63) (hpos : 0 < d) :
    -2 ^ 63 ≤ x / d ∧ x / d < 2 ^ 63 := by
  have hd : (0 : ℤ) < d := by omega
  constructor
  · rw [Int.le_ediv_iff_mul_le hd]
    nlinarith
  · rw [Int.ediv_lt_iff_lt_mul hd]
    nlinarith

/-- From the smallest multiple on nothing wraps around. -/
theorem dividesExactly_of_le (hlow : -(maxMultiple d : ℤ) ≤ x) (hhigh : x < 2 ^ 63) (hpos : 0 < d) :
    DividesExactly x d := by
  have hle := maxMultiple_le d
  have hword : (word 8 (x + maxMultiple d) : ℤ) = x + maxMultiple d := word_eight (by omega) (by omega) rfl
  obtain ⟨hmin, hmax⟩ := ediv_bounds (by omega : -2 ^ 63 ≤ x) hhigh hpos
  constructor
  · rw [fastDivisibleBy, decide_eq_true_eq, ← Nat.dvd_iff_mod_eq_zero, ← Int.natCast_dvd_natCast, hword,
      cast_maxMultiple]
    exact Int.dvd_add_mul_self
  · exact fastDivideBy_eq hpos hword hmin hmax

/-- Below it the quotient is not negative. -/
theorem le_of_dividesExactly (hlow : -2 ^ 63 ≤ x) (hpos : 1 < d) (h : DividesExactly x d) :
    -(maxMultiple d : ℤ) ≤ x := by
  by_contra hbelow
  have hd : (0 : ℤ) < d := by omega
  have hword : (word 8 (x + maxMultiple d) : ℤ) = x + 2 ^ 64 + maxMultiple d :=
    word_eight (by omega) (by omega) (by omega)
  have hnonneg : 0 ≤ (x + 2 ^ 64) / d := Int.ediv_nonneg (by omega) hd.le
  have hhalf : (x + 2 ^ 64) / d < 2 ^ 63 := by
    rw [Int.ediv_lt_iff_lt_mul hd]
    nlinarith
  have hnegative : x / d < 0 := Int.ediv_neg_of_neg_of_pos (by omega) hd
  have hquotient := fastDivideBy_eq (by omega) hword (by omega) hhalf
  rw [h.2] at hquotient
  omega

theorem dividesExactly_one (hlow : -2 ^ 63 ≤ x) (hhigh : x < 2 ^ 63) : DividesExactly x 1 := by
  by_cases hsmallest : x = -2 ^ 63
  · rw [hsmallest]
    exact ⟨by decide, by decide⟩
  · have hmax : (maxMultiple 1 : ℤ) = 2 ^ 63 - 1 := by decide
    exact dividesExactly_of_le (by omega) hhigh Nat.one_pos

theorem dividesExactly_iff (hlow : -2 ^ 63 ≤ x) (hhigh : x < 2 ^ 63) (hpos : 0 < d) :
    DividesExactly x d ↔ -(maxMultiple d : ℤ) ≤ x ∨ d = 1 := by
  constructor
  · intro h
    by_cases hone : d = 1
    · exact .inr hone
    · exact .inl (le_of_dividesExactly hlow (by omega) h)
  · intro hcases
    rcases hcases with hle | rfl
    · exact dividesExactly_of_le hle hhigh hpos
    · exact dividesExactly_one hlow hhigh

/-! ## Whole milliseconds -/

/-- Of the values that are no multiples, only one passes for one. -/
theorem eq_of_fastDivisibleBy (hlow : -2 ^ 63 ≤ x) (hhigh : x < 2 ^ 63) (hfine : ¬ 1000000 ∣ x)
    (h : fastDivisibleBy x timeNanosPerMillisecond = true) : x = -2 ^ 63 + 224192 := by
  have hmax : (maxMultiple timeNanosPerMillisecond : ℤ) = 9223372036854000000 := by decide
  by_contra hother
  have hexact : ¬ -(maxMultiple timeNanosPerMillisecond : ℤ) ≤ x := by
    intro hle
    exact hfine ((dividesExactly_of_le hle hhigh (by decide)).1.mp h)
  have hmod := of_decide_eq_true h
  have hword : (word 8 (x + maxMultiple timeNanosPerMillisecond) : ℤ) =
      x + 2 ^ 64 + maxMultiple timeNanosPerMillisecond :=
    word_eight (by omega) (by omega) (by omega)
  rw [hmax] at hexact hword
  rw [hmax, timeNanosPerMillisecond] at hmod
  omega

theorem writesMillis_of_exact (hnull : x ≠ timestampNull)
    (htest : fastDivisibleBy x timeNanosPerMillisecond = true ↔ (timeNanosPerMillisecond : ℤ) ∣ x)
    (hquotient : (timeNanosPerMillisecond : ℤ) ∣ x →
      fastDivideBy x timeNanosPerMillisecond = x / timeNanosPerMillisecond) : WritesMillis x := by
  rw [WritesMillis, writeCompressedNanoTime, if_neg hnull]
  by_cases hwhole : (timeNanosPerMillisecond : ℤ) ∣ x
  · rw [if_pos (htest.mpr hwhole), if_pos hwhole, hquotient hwhole]
  · rw [if_neg (mt htest.mp hwhole), if_neg hwhole, if_neg hnull]

/-- A time too early for nanoseconds is written as one late in the year 2262. -/
theorem not_writesMillis : ¬ WritesMillis (-9223372036854551616) := by
  intro h
  have hnull : (-9223372036854551616 : ℤ) ≠ timestampNull := by decide
  have hwhole : ¬ (timeNanosPerMillisecond : ℤ) ∣ -9223372036854551616 := by decide
  have htest : fastDivisibleBy (-9223372036854551616) timeNanosPerMillisecond = true := by decide
  have hmillis : fastDivideBy (-9223372036854551616) timeNanosPerMillisecond = 9223372036855 := by decide
  rw [WritesMillis, writeCompressedNanoTime, if_neg hnull, if_pos htest, hmillis, if_neg hwhole, if_neg hnull] at h
  have hwritten : Exec.returns (putCompressedMillisecondTime 9223372036855) (emptyWriter 16) = true := by
    decide +kernel
  rw [h] at hwritten
  exact absurd hwritten (by decide +kernel)

/-- That value apart, the writer is right. -/
theorem writesMillis_iff (hlow : -2 ^ 63 ≤ x) (hhigh : x < 2 ^ 63) :
    WritesMillis x ↔ x ≠ -9223372036854551616 := by
  constructor
  · intro h hx
    rw [hx] at h
    exact not_writesMillis h
  · intro hx
    by_cases hle : -(maxMultiple timeNanosPerMillisecond : ℤ) ≤ x
    · have hnull : x ≠ timestampNull := by
        have hmax : (maxMultiple timeNanosPerMillisecond : ℤ) = 9223372036854000000 := by decide
        rw [timestampNull]
        omega
      obtain ⟨htest, hquotient⟩ := dividesExactly_of_le hle hhigh (by decide)
      exact writesMillis_of_exact hnull htest fun _ ↦ hquotient
    by_cases hnull : x = timestampNull
    · rw [hnull]
      rw [WritesMillis, writeCompressedNanoTime, if_pos rfl, if_neg (by decide), if_pos rfl]
    · have hmax : (maxMultiple timeNanosPerMillisecond : ℤ) = 9223372036854000000 := by decide
      -- below the smallest multiple there is no other one
      have hfine : ¬ (1000000 : ℤ) ∣ x := by
        rw [timestampNull] at hnull
        omega
      have htest : ¬ fastDivisibleBy x timeNanosPerMillisecond = true := by
        intro hpasses
        have hone := eq_of_fastDivisibleBy hlow hhigh hfine hpasses
        omega
      exact writesMillis_of_exact hnull (iff_of_false htest hfine) fun hwhole ↦ absurd hwhole hfine

/-- The test and the quotient are right from the smallest multiple of the divisor on that a signed number
holds, and for the divisor 1; the writer of times is wrong about one number alone. -/
theorem divisions_iff (x : Int64) {d : ℕ} (hpos : 0 < d) :
    (DividesExactly x.toInt d ↔ -(maxMultiple d : ℤ) ≤ x.toInt ∨ d = 1) ∧
      (WritesMillis x.toInt ↔ x.toInt ≠ -9223372036854551616) :=
  ⟨dividesExactly_iff x.le_toInt x.toInt_lt hpos, writesMillis_iff x.le_toInt x.toInt_lt⟩

theorem divisions_five_two :
    (DividesExactly (5 : Int64).toInt 2 ↔ -(maxMultiple 2 : ℤ) ≤ (5 : Int64).toInt ∨ 2 = 1) ∧
      (WritesMillis (5 : Int64).toInt ↔ (5 : Int64).toInt ≠ -9223372036854551616) :=
  divisions_iff 5 (by decide)

/-- A number that is no multiple of a million passes for one, and the least number is halved to a positive
one. -/
theorem divisions_smallest :
    fastDivisibleBy (-9223372036854551616) 1000000 = true ∧ ¬ (1000000 : ℤ) ∣ -9223372036854551616 ∧
      fastDivideBy (-9223372036854775808) 2 = 4611686018427387904 ∧
      (-9223372036854775808 : ℤ) / 2 = -4611686018427387904 := by
  decide

end DxApi.Writer
