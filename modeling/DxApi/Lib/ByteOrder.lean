import Mathlib.Data.List.Basic
import Mathlib.Algebra.Order.Ring.Nat
import Mathlib.Tactic.Ring

/-!
# Byte order

Numbers as sequences of bytes: `littleEndian` and `bigEndian` write a given number of bytes,
`ofLittleEndian` and `ofBigEndian` read them back. A number that fits comes back unchanged.
-/

namespace DxApi.ByteOrder

/-- The `count` low bytes of `value`, lowest first. -/
def littleEndian : ℕ → ℕ → List UInt8
  | 0, _ => []
  | count + 1, value => UInt8.ofNat value :: littleEndian count (value / 256)

/-- The `count` low bytes of `value`, highest first. -/
def bigEndian (count value : ℕ) : List UInt8 :=
  (littleEndian count value).reverse

/-- The number whose bytes are `data`, lowest first. -/
def ofLittleEndian : List UInt8 → ℕ
  | [] => 0
  | byte :: data => byte.toNat + 256 * ofLittleEndian data

/-- The number whose bytes are `data`, highest first. -/
def ofBigEndian (data : List UInt8) : ℕ :=
  ofLittleEndian data.reverse

@[simp]
theorem length_littleEndian (count value : ℕ) : (littleEndian count value).length = count := by
  induction count generalizing value with
  | zero => rfl
  | succ count ih => simp [littleEndian, ih]

@[simp]
theorem length_bigEndian (count value : ℕ) : (bigEndian count value).length = count := by
  simp [bigEndian]

theorem littleEndian_add (count more value : ℕ) :
    littleEndian (count + more) value =
      littleEndian count value ++ littleEndian more (value / 256 ^ count) := by
  induction count generalizing value with
  | zero => simp [littleEndian]
  | succ count ih =>
    have hdiv : value / 256 / 256 ^ count = value / 256 ^ (count + 1) := by
      rw [Nat.div_div_eq_div_mul, pow_succ, mul_comm]
    rw [Nat.succ_add, littleEndian, littleEndian, ih, hdiv, List.cons_append]

theorem ofLittleEndian_littleEndian {count value : ℕ} (h : value < 256 ^ count) :
    ofLittleEndian (littleEndian count value) = value := by
  induction count generalizing value with
  | zero =>
    have hzero : value = 0 := by simpa using h
    rw [hzero]
    rfl
  | succ count ih =>
    have hrest : value / 256 < 256 ^ count := by
      rw [pow_succ] at h
      exact Nat.div_lt_of_lt_mul (by omega)
    have hbyte : (UInt8.ofNat value).toNat = value % 256 := by simp
    rw [littleEndian, ofLittleEndian, ih hrest, hbyte]
    exact Nat.mod_add_div value 256

theorem ofLittleEndian_lt (data : List UInt8) : ofLittleEndian data < 256 ^ data.length := by
  induction data with
  | nil => exact Nat.one_pos
  | cons byte data ih =>
    have hbyte := byte.toNat_lt
    rw [ofLittleEndian, List.length_cons, pow_succ]
    omega

theorem ofBigEndian_lt (data : List UInt8) : ofBigEndian data < 256 ^ data.length := by
  have hlt := ofLittleEndian_lt data.reverse
  rwa [List.length_reverse] at hlt

theorem ofBigEndian_bigEndian {count value : ℕ} (h : value < 256 ^ count) :
    ofBigEndian (bigEndian count value) = value := by
  rw [ofBigEndian, bigEndian, List.reverse_reverse, ofLittleEndian_littleEndian h]

theorem ofLittleEndian_append (data rest : List UInt8) :
    ofLittleEndian (data ++ rest) = ofLittleEndian data + 256 ^ data.length * ofLittleEndian rest := by
  induction data with
  | nil => simp [ofLittleEndian]
  | cons byte data ih =>
    rw [List.cons_append, ofLittleEndian, ofLittleEndian, ih, List.length_cons, pow_succ]
    ring

theorem ofBigEndian_append (data rest : List UInt8) :
    ofBigEndian (data ++ rest) = ofBigEndian data * 256 ^ rest.length + ofBigEndian rest := by
  rw [ofBigEndian, List.reverse_append, ofLittleEndian_append, List.length_reverse, ofBigEndian, ofBigEndian]
  ring

/-- The high bytes, then the low ones. -/
theorem bigEndian_add (count more value : ℕ) :
    bigEndian (count + more) value = bigEndian count (value / 256 ^ more) ++ bigEndian more value := by
  rw [bigEndian, Nat.add_comm, littleEndian_add, List.reverse_append, bigEndian, bigEndian]

theorem bigEndian_succ (count value : ℕ) :
    bigEndian (count + 1) value = UInt8.ofNat (value / 256 ^ count) :: bigEndian count value := by
  rw [Nat.add_comm, bigEndian_add]
  rfl

theorem littleEndian_mod (count value : ℕ) : littleEndian count (value % 256 ^ count) = littleEndian count value := by
  induction count generalizing value with
  | zero => rfl
  | succ count ih =>
    have hlow : UInt8.ofNat (value % 256 ^ (count + 1)) = UInt8.ofNat value := by
      apply UInt8.toNat_inj.mp
      rw [UInt8.toNat_ofNat', UInt8.toNat_ofNat', Nat.pow_succ, Nat.mod_mul_left_mod]
    have hhigh : value % 256 ^ (count + 1) / 256 = value / 256 % 256 ^ count := by
      rw [Nat.pow_succ, Nat.mul_comm, Nat.mod_mul_right_div_self]
    rw [littleEndian, littleEndian, hlow, hhigh, ih]

/-- Higher bytes of the number are not among the low ones. -/
theorem bigEndian_mod (count value : ℕ) : bigEndian count (value % 256 ^ count) = bigEndian count value := by
  rw [bigEndian, littleEndian_mod, bigEndian]

theorem bigEndian_one (byte : UInt8) : bigEndian 1 byte.toNat = [byte] := by
  simp [bigEndian, littleEndian]

end DxApi.ByteOrder
