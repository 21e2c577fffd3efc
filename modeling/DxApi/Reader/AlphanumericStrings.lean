import DxApi.Reader.Alphanumeric

/-!
# Alphanumeric strings

A string is sent as its length and then six bits for each character. The writer collects the bits in
an accumulator of 64 bits; when the next character does not fit, the accumulator is filled up with the
high bits of a variable that the character has not been assigned to yet. The reader goes over the
bytes with an accumulator of 32 bits, into which it takes three bytes at a time.
-/

namespace DxApi.Reader

open Exec ByteMemory ByteOrder Writer

/-! ## Digits -/

/-- What stands in front of the low digits. -/
theorem mul_add_div_of_lt {base low : ℕ} (high : ℕ) (h : low < base) : (high * base + low) / base = high := by
  rw [Nat.add_comm, Nat.add_mul_div_right _ _ (Nat.zero_lt_of_lt h), Nat.div_eq_of_lt h, Nat.zero_add]

theorem mul_add_inj {base high high' low low' : ℕ} (h : low < base) (h' : low' < base) :
    high * base + low = high' * base + low' ↔ high = high' ∧ low = low' := by
  constructor
  · intro hsame
    have hquotient := congrArg (· / base) hsame
    have hremainder := congrArg (· % base) hsame
    simp only [mul_add_div_of_lt _ h, mul_add_div_of_lt _ h', Nat.mul_add_mod_of_lt h,
      Nat.mul_add_mod_of_lt h'] at hquotient hremainder
    exact ⟨hquotient, hremainder⟩
  · rintro ⟨rfl, rfl⟩
    rfl

/-! ## The number of a string -/

/-- The codes of the characters, six bits each. -/
def codesNumber : List ℕ → ℕ
  | [] => 0
  | c :: str => alphanumericCode c * 64 ^ str.length + codesNumber str

/-- The last `len` codes of a number, as characters. -/
def charactersOf : ℕ → ℕ → List ℕ
  | 0, _ => []
  | len + 1, bits => (bits / 64 ^ len % 64 + 0x20) :: charactersOf len bits

/-- The characters that may be sent. -/
def IsAlphanumeric (fieldSize : ℕ) (str : List ℕ) : Prop :=
  str.length ≤ fieldSize ∧ ∀ c ∈ str, 0x20 ≤ c ∧ c < 0x60

theorem alphanumericCode_eq {c : ℕ} (hc : 0x20 ≤ c ∧ c < 0x60) : alphanumericCode c = c - 0x20 := by
  rw [alphanumericCode]
  omega

theorem alphanumericCode_lt {c : ℕ} (hc : 0x20 ≤ c ∧ c < 0x60) : alphanumericCode c < 64 := by
  rw [alphanumericCode_eq hc]
  omega

/-- No other character of 32 bits has a code of six bits. -/
theorem le_alphanumericCode {c : ℕ} (hc : c < 2 ^ 32) (hnot : ¬ (0x20 ≤ c ∧ c < 0x60)) : 0x40 ≤ alphanumericCode c := by
  rw [alphanumericCode]
  omega

theorem codesNumber_lt {str : List ℕ} (h : ∀ c ∈ str, 0x20 ≤ c ∧ c < 0x60) : codesNumber str < 64 ^ str.length := by
  induction str with
  | nil => exact Nat.one_pos
  | cons c str ih =>
    rw [List.forall_mem_cons] at h
    have hcode := alphanumericCode_lt h.1
    have hrest := ih h.2
    calc
      _ < alphanumericCode c * 64 ^ str.length + 64 ^ str.length := Nat.add_lt_add_left hrest _
      _ = (alphanumericCode c + 1) * 64 ^ str.length := by ring
      _ ≤ 64 * 64 ^ str.length := Nat.mul_le_mul_right _ hcode
      _ = 64 ^ (c :: str).length := by rw [List.length_cons, pow_succ']

theorem length_charactersOf (len bits : ℕ) : (charactersOf len bits).length = len := by
  induction len with
  | zero => rfl
  | succ len ih => rw [charactersOf, List.length_cons, ih]

/-- A string is read if and only if its codes are the bits. -/
theorem charactersOf_eq_iff {str : List ℕ} (h : ∀ c ∈ str, 0x20 ≤ c ∧ c < 0x60) (bits : ℕ) :
    charactersOf str.length bits = str ↔ bits % 64 ^ str.length = codesNumber str := by
  induction str with
  | nil => exact iff_of_true rfl (Nat.mod_one bits)
  | cons c str ih =>
    rw [List.forall_mem_cons] at h
    have hcode := alphanumericCode_lt h.1
    have hequal := alphanumericCode_eq h.1
    have hrest := codesNumber_lt h.2
    have hmod : bits % 64 ^ (str.length + 1) =
        bits / 64 ^ str.length % 64 * 64 ^ str.length + bits % 64 ^ str.length := by
      rw [Nat.pow_succ, Nat.mod_mul, Nat.add_comm, Nat.mul_comm]
    have hlow := Nat.mod_lt bits (Nat.pow_pos (by decide) : 0 < 64 ^ str.length)
    rw [List.length_cons, charactersOf, List.cons.injEq, ih h.2, hmod, codesNumber, mul_add_inj hlow hrest]
    apply and_congr_left'
    omega

/-! ## What the writer sends -/

/-- The word that is written before the next character: `pending` bits of the accumulator count, and
the word is filled up with bits of `ch`. -/
def refillWord (ch accumulator pending : ℕ) : ℕ :=
  (accumulator <<< (64 - pending) ||| ch >>> (pending - 58)) % 2 ^ 64

/-- The bits that are sent, as a number. -/
def sentBits (unassigned : ℕ → ℕ) : List ℕ → ℕ → ℕ → ℕ
  | [], accumulator, pending => accumulator % 2 ^ pending
  | c :: str, accumulator, pending =>
    if 58 < pending then
      refillWord (unassigned str.length) accumulator pending * 2 ^ (pending - 58 + 6 * str.length) +
        sentBits unassigned str ((0 <<< 6 ||| alphanumericCode c) % 2 ^ 64) (pending - 58)
    else
      sentBits unassigned str ((accumulator <<< 6 ||| alphanumericCode c) % 2 ^ 64) (pending + 6)

variable {unassigned : ℕ → ℕ} {str : List ℕ}

theorem sentBits_lt (unassigned : ℕ → ℕ) (str : List ℕ) (accumulator pending : ℕ) :
    sentBits unassigned str accumulator pending < 2 ^ (pending + 6 * str.length) := by
  induction str generalizing accumulator pending with
  | nil => exact Nat.mod_lt _ (Nat.two_pow_pos pending)
  | cons c str ih =>
    rw [sentBits, List.length_cons]
    split
    · have hrest := ih ((0 <<< 6 ||| alphanumericCode c) % 2 ^ 64) (pending - 58)
      have hword : refillWord (unassigned str.length) accumulator pending < 2 ^ 64 := Nat.mod_lt _ (Nat.two_pow_pos 64)
      have hsum : pending + 6 * (str.length + 1) = 64 + (pending - 58 + 6 * str.length) := by omega
      rw [hsum, pow_add 2 64]
      calc
        _ < refillWord (unassigned str.length) accumulator pending * 2 ^ (pending - 58 + 6 * str.length) +
            2 ^ (pending - 58 + 6 * str.length) := Nat.add_lt_add_left hrest _
        _ = (refillWord (unassigned str.length) accumulator pending + 1) * 2 ^ (pending - 58 + 6 * str.length) := by
          ring
        _ ≤ 2 ^ 64 * 2 ^ (pending - 58 + 6 * str.length) := Nat.mul_le_mul_right _ hword
    · have hsum : pending + 6 * (str.length + 1) = pending + 6 + 6 * str.length := by omega
      rw [hsum]
      exact ih _ _

/-- The bytes of a number of `count` bits, the last of them filled up with zeros. -/
def bitBytes (count bits : ℕ) : List UInt8 :=
  bigEndian ((count + 7) / 8) (bits * 2 ^ (8 * ((count + 7) / 8) - count))

/-- The bits of an accumulator are the high bits of the last word. -/
theorem holds_lastWord (accumulator : ℕ) {pending : ℕ} (hpending : pending ≤ 64) :
    (Patch.word (bigEndian 8 (accumulator <<< (64 - pending))) ((pending + 7) / 8)).Holds
      (bitBytes pending (accumulator % 2 ^ pending)) := by
  have hcount : (pending + 7) / 8 ≤ 8 := by omega
  have hholds := Patch.holds_bigEndian (accumulator <<< (64 - pending)) hcount
  have hpow : 256 ^ (8 - (pending + 7) / 8) = 2 ^ (64 - 8 * ((pending + 7) / 8)) := by
    rw [show 256 = 2 ^ 8 by rfl, ← pow_mul]
    congr 1
    omega
  have hpow' : 256 ^ ((pending + 7) / 8) = 2 ^ pending * 2 ^ (8 * ((pending + 7) / 8) - pending) := by
    rw [show 256 = 2 ^ 8 by rfl, ← pow_mul, ← pow_add]
    congr 1
    omega
  have hquotient : accumulator <<< (64 - pending) / 256 ^ (8 - (pending + 7) / 8) =
      accumulator * 2 ^ (8 * ((pending + 7) / 8) - pending) := by
    have hsum : 64 - pending = 8 * ((pending + 7) / 8) - pending + (64 - 8 * ((pending + 7) / 8)) := by omega
    rw [hpow, Nat.shiftLeft_eq, hsum, pow_add, ← Nat.mul_assoc, Nat.mul_div_cancel _ (Nat.two_pow_pos _)]
  rw [hquotient, ← bigEndian_mod ((pending + 7) / 8), hpow', Nat.mul_mod_mul_right] at hholds
  exact hholds

/-- A word, and the bits that follow it. -/
theorem bitBytes_word {word count bits : ℕ} (hbits : bits < 2 ^ count) :
    bitBytes (64 + count) (word * 2 ^ count + bits) = bigEndian 8 word ++ bitBytes count bits := by
  have hcount : (64 + count + 7) / 8 = 8 + (count + 7) / 8 := by omega
  have hpad : 8 * (8 + (count + 7) / 8) - (64 + count) = 8 * ((count + 7) / 8) - count := by omega
  have hpow : 256 ^ ((count + 7) / 8) = 2 ^ count * 2 ^ (8 * ((count + 7) / 8) - count) := by
    rw [show 256 = 2 ^ 8 by rfl, ← pow_mul, ← pow_add]
    congr 1
    omega
  have hlow : bits * 2 ^ (8 * ((count + 7) / 8) - count) < 256 ^ ((count + 7) / 8) := by
    rw [hpow]
    exact Nat.mul_lt_mul_of_pos_right hbits (Nat.two_pow_pos _)
  have hsplit : (word * 2 ^ count + bits) * 2 ^ (8 * ((count + 7) / 8) - count) =
      word * 256 ^ ((count + 7) / 8) + bits * 2 ^ (8 * ((count + 7) / 8) - count) := by
    rw [hpow]
    ring
  rw [bitBytes, hcount, hpad, hsplit, bigEndian_add, mul_add_div_of_lt _ hlow, ← bigEndian_mod ((count + 7) / 8),
    Nat.mul_add_mod_of_lt hlow]
  rfl

/-- The loop writes the bits that are sent. -/
theorem charactersPatch_eq (hstr : ∀ c ∈ str, 0x20 ≤ c ∧ c < 0x60) {accumulator pending : ℕ}
    (hpending : pending ≤ 64) :
    ∃ p, charactersPatch unassigned str accumulator (64 - pending : ℕ) = some p ∧
      p.Holds (bitBytes (pending + 6 * str.length) (sentBits unassigned str accumulator pending)) := by
  induction str generalizing accumulator pending with
  | nil =>
    have hcount : (71 - ((64 - pending : ℕ) : ℤ)).toNat / 8 = (pending + 7) / 8 := by omega
    refine ⟨_, rfl, ?_⟩
    rw [hcount, Int.toNat_natCast]
    exact holds_lastWord accumulator hpending
  | cons c str ih =>
    rw [List.forall_mem_cons] at hstr
    have hcode : ¬ 0x40 ≤ alphanumericCode c := not_le.mpr (alphanumericCode_lt hstr.1)
    by_cases hfull : 58 < pending
    · have hnegative : ((64 - pending : ℕ) : ℤ) - 6 < 0 := by omega
      have hfree : (((64 - pending : ℕ) : ℤ) - 6 + 6).toNat = 64 - pending := by omega
      have hmissing : (-(((64 - pending : ℕ) : ℤ) - 6)).toNat = pending - 58 := by omega
      have hnext : ((64 - pending : ℕ) : ℤ) - 6 + 64 = (64 - (pending - 58) : ℕ) := by omega
      obtain ⟨p, hp, hholds⟩ := @ih hstr.2 ((0 <<< 6 ||| alphanumericCode c) % 2 ^ 64) (pending - 58) (by omega)
      have hdata : bigEndian 8 (refillWord (unassigned str.length) accumulator pending) =
          bigEndian 8 (accumulator <<< (64 - pending) ||| unassigned str.length >>> (pending - 58)) := by
        rw [refillWord, show 2 ^ 64 = 256 ^ 8 by rfl, bigEndian_mod]
      have hsum : pending + 6 * (str.length + 1) = 64 + (pending - 58 + 6 * str.length) := by omega
      rw [charactersPatch, if_pos hnegative, if_neg hcode, hfree, hmissing, hnext, hp, sentBits, if_pos hfull,
        List.length_cons, hsum, bitBytes_word (sentBits_lt unassigned str _ _), hdata]
      exact ⟨_, rfl, (Patch.holds_data _).append hholds⟩
    · have hnegative : ¬ ((64 - pending : ℕ) : ℤ) - 6 < 0 := by omega
      have hnext : ((64 - pending : ℕ) : ℤ) - 6 = (64 - (pending + 6) : ℕ) := by omega
      have hsum : pending + 6 * (str.length + 1) = pending + 6 + 6 * str.length := by omega
      rw [charactersPatch, if_neg hnegative, if_neg hcode, hnext, sentBits, if_neg hfull, List.length_cons, hsum]
      exact ih hstr.2 (by omega)

theorem length_bitBytes (count bits : ℕ) : (bitBytes count bits).length = (count + 7) / 8 := length_bigEndian _ _

/-! ## Where a character is divided -/

/-- Where a word ends in front of a character or within it, the bits of the variable that has not been
assigned yet make the same word as those of the character. `before` is the number of all that is sent
before, in `count` bits. -/
def RefillsAgree (unassigned : ℕ → ℕ) : List ℕ → ℕ → ℕ → Prop
  | [], _, _ => True
  | c :: str, before, count =>
    (∀ missing, 0 < missing → missing ≤ 6 → (count + 6) % 64 = missing →
      (before * 2 ^ (6 - missing) ||| unassigned str.length / 2 ^ missing) % 2 ^ 64 =
        (before * 2 ^ (6 - missing) + alphanumericCode c / 2 ^ missing) % 2 ^ 64) ∧
      RefillsAgree unassigned str (before * 64 + alphanumericCode c) (count + 6)

theorem mul_two_pow_mod {a b k m : ℕ} (hk : k ≤ m) (hsame : a % 2 ^ k = b % 2 ^ k) :
    a * 2 ^ (m - k) % 2 ^ m = b * 2 ^ (m - k) % 2 ^ m := by
  have hpow : 2 ^ m = 2 ^ k * 2 ^ (m - k) := by rw [← pow_add, Nat.add_sub_cancel' hk]
  rw [hpow, Nat.mul_mod_mul_right, Nat.mul_mod_mul_right, hsame]

/-- Only the bits of the accumulator that count are in the word. -/
theorem refillWord_eq {accumulator pending before : ℕ} (ch : ℕ) (hpending : pending ≤ 64)
    (hsame : accumulator % 2 ^ pending = before % 2 ^ pending) :
    refillWord ch accumulator pending = (before * 2 ^ (64 - pending) ||| ch / 2 ^ (pending - 58)) % 2 ^ 64 := by
  rw [refillWord, Nat.or_mod_two_pow, Nat.or_mod_two_pow, Nat.shiftLeft_eq, Nat.shiftRight_eq_div_pow,
    mul_two_pow_mod hpending hsame]

/-- A character behind the bits of an accumulator. -/
theorem append_code_mod {accumulator pending before code : ℕ} (hcode : code < 64) (hpending : pending ≤ 58)
    (hsame : accumulator % 2 ^ pending = before % 2 ^ pending) :
    (accumulator <<< 6 ||| code) % 2 ^ 64 % 2 ^ (pending + 6) = (before * 64 + code) % 2 ^ (pending + 6) := by
  have hdvd : 2 ^ (pending + 6) ∣ 2 ^ 64 := Nat.pow_dvd_pow 2 (by omega)
  have hshifted := mul_two_pow_mod (Nat.le_add_right pending 6) hsame
  rw [Nat.add_sub_cancel_left] at hshifted
  rw [Nat.mod_mod_of_dvd _ hdvd, ← Nat.shiftLeft_add_eq_or_of_lt hcode, Nat.shiftLeft_eq, Nat.add_mod, hshifted,
    ← Nat.add_mod]
  rfl

theorem mod_two_pow_add (x high low : ℕ) : x % 2 ^ (high + low) = x / 2 ^ low % 2 ^ high * 2 ^ low + x % 2 ^ low := by
  rw [Nat.add_comm high, Nat.pow_add, Nat.mod_mul, Nat.add_comm, Nat.mul_comm]

/-- The number of a string behind the bits of its last word. -/
theorem number_div {missing : ℕ} (before : ℕ) (c : ℕ) (hstr : ∀ c ∈ str, 0x20 ≤ c ∧ c < 0x60) (hmissing : missing ≤ 6) :
    ((before * 64 + c) * 64 ^ str.length + codesNumber str) / 2 ^ (missing + 6 * str.length) =
      before * 2 ^ (6 - missing) + c / 2 ^ missing := by
  have hpow : 2 ^ (missing + 6 * str.length) = 64 ^ str.length * 2 ^ missing := by
    rw [Nat.pow_add, Nat.pow_mul, Nat.mul_comm]
  have hsix : before * 64 = before * 2 ^ (6 - missing) * 2 ^ missing := by
    rw [Nat.mul_assoc, ← Nat.pow_add, Nat.sub_add_cancel hmissing]
  rw [hpow, ← Nat.div_div_eq_div_mul, mul_add_div_of_lt _ (codesNumber_lt hstr), hsix, Nat.add_comm,
    Nat.add_mul_div_right _ _ (Nat.two_pow_pos missing), Nat.add_comm]

/-- The bits that are sent are those of the string if and only if the words agree. -/
theorem sentBits_eq_iff (hstr : ∀ c ∈ str, 0x20 ≤ c ∧ c < 0x60) {accumulator pending before count : ℕ}
    (hpositive : 0 < pending) (hpending : pending ≤ 64) (hcount : count % 64 = pending % 64)
    (hsame : accumulator % 2 ^ pending = before % 2 ^ pending) :
    sentBits unassigned str accumulator pending =
        (before * 64 ^ str.length + codesNumber str) % 2 ^ (pending + 6 * str.length) ↔
      RefillsAgree unassigned str before count := by
  induction str generalizing accumulator pending before count with
  | nil =>
    apply iff_of_true _ trivial
    rw [sentBits, List.length_nil, codesNumber, pow_zero, Nat.mul_one, Nat.mul_zero, Nat.add_zero, Nat.add_zero, hsame]
  | cons c str ih =>
    rw [List.forall_mem_cons] at hstr
    have hcode := alphanumericCode_lt hstr.1
    have hnumber : before * 64 ^ (c :: str).length + codesNumber (c :: str) =
        (before * 64 + alphanumericCode c) * 64 ^ str.length + codesNumber str := by
      rw [codesNumber, List.length_cons]
      ring
    rw [hnumber, sentBits, RefillsAgree, List.length_cons]
    by_cases hfull : 58 < pending
    · have hmissing : (count + 6) % 64 = pending - 58 := by omega
      have hsum : pending + 6 * (str.length + 1) = 64 + (pending - 58 + 6 * str.length) := by omega
      have hfree : 6 - (pending - 58) = 64 - pending := by omega
      have hrest := @ih hstr.2 ((0 <<< 6 ||| alphanumericCode c) % 2 ^ 64) (pending - 58)
        (before * 64 + alphanumericCode c) (count + 6) (by omega) (by omega) (by omega) (by
          have hdvd : 2 ^ (pending - 58) ∣ 64 := Nat.pow_dvd_pow 2 (by omega : pending - 58 ≤ 6)
          obtain ⟨times, htimes⟩ := hdvd
          rw [Nat.zero_shiftLeft, Nat.zero_or, Nat.mod_eq_of_lt (hcode.trans (by decide)), htimes,
            Nat.mul_left_comm, Nat.mul_add_mod])
      have hword := refillWord_eq (unassigned str.length) hpending hsame
      have hquotient := number_div before (alphanumericCode c) hstr.2 (by omega : pending - 58 ≤ 6)
      have hlow : ((before * 64 + alphanumericCode c) * 64 ^ str.length + codesNumber str) %
          2 ^ (pending - 58 + 6 * str.length) < 2 ^ (pending - 58 + 6 * str.length) := Nat.mod_lt _ (Nat.two_pow_pos _)
      rw [if_pos hfull, hsum, mod_two_pow_add _ 64, mul_add_inj (sentBits_lt unassigned str _ _) hlow, hrest,
        hquotient, hword, hfree]
      apply and_congr_left'
      constructor
      · intro hagree missing _ _ hequal
        have hsame_missing : missing = pending - 58 := hequal.symm.trans hmissing
        rw [hsame_missing, hfree]
        exact hagree
      · intro hagree
        have hagree' := hagree (pending - 58) (by omega) (by omega) hmissing
        rwa [hfree] at hagree'
    · have hnot : ∀ missing, 0 < missing → missing ≤ 6 → ¬ (count + 6) % 64 = missing := by omega
      have hsum : pending + 6 * (str.length + 1) = pending + 6 + 6 * str.length := by omega
      have hrest := @ih hstr.2 ((accumulator <<< 6 ||| alphanumericCode c) % 2 ^ 64) (pending + 6)
        (before * 64 + alphanumericCode c) (count + 6) (by omega) (by omega) (by omega)
        (append_code_mod hcode (not_lt.mp hfull) hsame)
      rw [if_neg hfull, hsum, hrest]
      exact (and_iff_right fun missing hpositive hle hequal ↦ absurd hequal (hnot missing hpositive hle)).symm

/-- What fills up a word is in its low half. -/
theorem refillWord_div {ch accumulator pending high : ℕ} (hch : ch < 2 ^ 32) (hhigh : high ≤ 32)
    (hle : high ≤ pending) (hpending : pending ≤ 64) :
    refillWord ch accumulator pending / 2 ^ (64 - high) = accumulator % 2 ^ pending / 2 ^ (pending - high) := by
  have hpow : 2 ^ 64 = 2 ^ pending * 2 ^ (64 - pending) := by rw [← pow_add, Nat.add_sub_cancel' hpending]
  have hdivisor : 2 ^ (64 - high) = 2 ^ (64 - pending) * 2 ^ (pending - high) := by
    rw [← pow_add]
    congr 1
    omega
  have hsmall : ch >>> (pending - 58) % 2 ^ 64 / 2 ^ (64 - high) = 0 := by
    apply Nat.div_eq_of_lt
    calc
      _ ≤ ch >>> (pending - 58) := Nat.mod_le _ _
      _ ≤ ch := by rw [Nat.shiftRight_eq_div_pow]; exact Nat.div_le_self _ _
      _ < 2 ^ 32 := hch
      _ ≤ 2 ^ (64 - high) := Nat.pow_le_pow_right (by decide) (by omega)
  rw [refillWord, Nat.or_mod_two_pow, Nat.or_div_two_pow, hsmall, Nat.or_zero, Nat.shiftLeft_eq, hpow,
    Nat.mul_mod_mul_right, hdivisor, ← Nat.div_div_eq_div_mul, Nat.mul_div_cancel _ (Nat.two_pow_pos _)]

/-- The high bits of the accumulator are sent as they are. -/
theorem sentBits_div (hunassigned : ∀ i, unassigned i < 2 ^ 32) (hstr : ∀ c ∈ str, 0x20 ≤ c ∧ c < 0x60)
    {accumulator pending high : ℕ} (hhigh : high ≤ 32) (hle : high ≤ pending) (hpending : pending ≤ 64) :
    sentBits unassigned str accumulator pending / 2 ^ (pending - high + 6 * str.length) =
      accumulator % 2 ^ pending / 2 ^ (pending - high) := by
  induction str generalizing accumulator pending with
  | nil => rfl
  | cons c str ih =>
    rw [List.forall_mem_cons] at hstr
    have hcode := alphanumericCode_lt hstr.1
    rw [sentBits, List.length_cons]
    by_cases hfull : 58 < pending
    · have hsum : pending - high + 6 * (str.length + 1) = pending - 58 + 6 * str.length + (64 - high) := by omega
      rw [if_pos hfull, hsum, Nat.pow_add 2 (pending - 58 + 6 * str.length), ← Nat.div_div_eq_div_mul,
        mul_add_div_of_lt _ (sentBits_lt unassigned str _ _), refillWord_div (hunassigned _) hhigh hle hpending]
    · have hsum : pending - high + 6 * (str.length + 1) = pending + 6 - high + 6 * str.length := by omega
      have hmodulus : 2 ^ (pending + 6) = 64 * 2 ^ pending := by rw [Nat.pow_add, Nat.mul_comm]
      have hdivisor : 2 ^ (pending + 6 - high) = 64 * 2 ^ (pending - high) := by
        rw [Nat.sub_add_comm hle, Nat.pow_add, Nat.mul_comm]
      have hlow : (accumulator * 64 + alphanumericCode c) % 2 ^ (pending + 6) =
          accumulator % 2 ^ pending * 64 + alphanumericCode c := by
        rw [hmodulus, Nat.mod_mul, mul_add_div_of_lt _ hcode, Nat.mul_add_mod_of_lt hcode, Nat.add_comm, Nat.mul_comm]
      rw [if_neg hfull, hsum, ih hstr.2 (by omega) (by omega), append_code_mod hcode (not_lt.mp hfull) rfl, hlow,
        hdivisor, ← Nat.div_div_eq_div_mul, mul_add_div_of_lt _ hcode]

/-! ## What the reader unpacks -/

/-- Four bytes in the middle are digits of the whole. -/
theorem window_eq (mem : Memory) (p : ℤ) {index total : ℕ} (hindex : 4 ≤ index) (htotal : index ≤ total) :
    ofBigEndian (ByteMemory.bytes mem (p + index - 4) 4) =
      ofBigEndian (ByteMemory.bytes mem p total) / 256 ^ (total - index) % 2 ^ 32 := by
  obtain ⟨front, rfl⟩ := Nat.exists_eq_add_of_le' hindex
  obtain ⟨behind, rfl⟩ := Nat.exists_eq_add_of_le htotal
  have hplace : p + ((front + 4 : ℕ) : ℤ) - 4 = p + front := by omega
  have hlt := ofBigEndian_lt (ByteMemory.bytes mem (p + (front + 4 : ℕ)) behind)
  have hword := ofBigEndian_lt (ByteMemory.bytes mem (p + front) 4)
  rw [length_bytes] at hlt hword
  rw [Nat.add_sub_cancel_left, bytes_add, ofBigEndian_append, length_bytes, mul_add_div_of_lt _ hlt, bytes_add,
    ofBigEndian_append, length_bytes, hplace, show 2 ^ 32 = 256 ^ 4 by rfl, Nat.mul_add_mod_of_lt hword]

/-- The accumulator keeps its last byte and takes three more. -/
theorem refill_eq (mem : Memory) (q : ℤ) :
    (ofBigEndian (ByteMemory.bytes mem q 4) <<< 24 ||| ofBigEndian (ByteMemory.bytes mem (q + 4) 4) >>> 8) % 2 ^ 32 =
      ofBigEndian (ByteMemory.bytes mem (q + 3) 4) := by
  have hfirst : ByteMemory.bytes mem q 4 = ByteMemory.bytes mem q 3 ++ ByteMemory.bytes mem (q + 3) 1 :=
    bytes_add mem q 3 1
  have hsecond : ByteMemory.bytes mem (q + 4) 4 = ByteMemory.bytes mem (q + 4) 3 ++ ByteMemory.bytes mem (q + 4 + 3) 1 :=
    bytes_add mem (q + 4) 3 1
  have hplace : q + 3 + (1 : ℕ) = q + 4 := by omega
  have hmiddle : ByteMemory.bytes mem (q + 3) 4 = ByteMemory.bytes mem (q + 3) 1 ++ ByteMemory.bytes mem (q + 4) 3 := by
    rw [← hplace]
    exact bytes_add mem (q + 3) 1 3
  have hlast := ofBigEndian_lt (ByteMemory.bytes mem (q + 4 + 3) 1)
  have hbyte := ofBigEndian_lt (ByteMemory.bytes mem (q + 3) 1)
  have hthree := ofBigEndian_lt (ByteMemory.bytes mem (q + 4) 3)
  rw [length_bytes] at hlast hbyte hthree
  rw [hfirst, hsecond, hmiddle, ofBigEndian_append, ofBigEndian_append, ofBigEndian_append, length_bytes, length_bytes,
    length_bytes, Nat.shiftRight_eq_div_pow, show 2 ^ 8 = 256 ^ 1 by rfl, mul_add_div_of_lt _ hlast,
    ← Nat.shiftLeft_add_eq_or_of_lt (by omega), Nat.shiftLeft_eq]
  omega

/-- Six bits of a window are six bits of the whole. -/
theorem window_div_mod {bits bitIndex : ℕ} (hindex : bitIndex ≤ 26) :
    (bits % 2 ^ 32) >>> bitIndex % 0x40 = bits / 2 ^ bitIndex % 0x40 := by
  have hpow : 2 ^ 32 = 2 ^ bitIndex * 2 ^ (32 - bitIndex) := by rw [← pow_add, Nat.add_sub_cancel' (by omega)]
  have hdvd : 0x40 ∣ 2 ^ (32 - bitIndex) := Nat.pow_dvd_pow 2 (by omega : 6 ≤ 32 - bitIndex)
  rw [Nat.shiftRight_eq_div_pow, hpow, Nat.mod_mul_right_div_self, Nat.mod_mod_of_dvd _ hdvd]

/-- The characters are the digits of the bytes. -/
theorem unpackCharacters_eq (mem : Memory) (p : ℤ) {len total index bitIndex shift : ℕ} (hindex : 4 ≤ index)
    (htotal : index + 3 * len ≤ total) (hbit : bitIndex ≤ 26)
    (hshift : shift + 6 * len = 8 * (total - index) + bitIndex + 6) :
    unpackCharacters mem len (ofBigEndian (ByteMemory.bytes mem (p + index - 4) 4)) bitIndex (p + index) =
      charactersOf len (ofBigEndian (ByteMemory.bytes mem p total) / 2 ^ shift) := by
  induction len generalizing index bitIndex with
  | zero => rfl
  | succ len ih =>
    have hpow : 2 ^ shift * 64 ^ len = 256 ^ (total - index) * 2 ^ bitIndex := by
      rw [show 64 = 2 ^ 6 by rfl, show 256 = 2 ^ 8 by rfl, ← pow_mul, ← pow_mul, ← pow_add, ← pow_add]
      congr 1
      omega
    have hcharacter : ofBigEndian (ByteMemory.bytes mem (p + index - 4) 4) >>> bitIndex % 0x40 =
        ofBigEndian (ByteMemory.bytes mem p total) / 2 ^ shift / 64 ^ len % 64 := by
      rw [@window_eq mem p index total hindex (by omega), window_div_mod hbit, Nat.div_div_eq_div_mul, Nat.div_div_eq_div_mul, hpow]
    have hrefill := refill_eq mem (p + index - 4)
    have hplace : p + index - 4 + 4 = p + index := by omega
    have hplace' : p + index - 4 + 3 = p + (index + 3 : ℕ) - 4 := by omega
    have hplace'' : p + index + 3 = p + (index + 3 : ℕ) := by omega
    rw [hplace, hplace'] at hrefill
    rw [unpackCharacters, charactersOf, Int.toNat_natCast, hcharacter]
    by_cases hlow : (bitIndex : ℤ) - 6 < 0
    · have hbit' : (bitIndex : ℤ) - 6 + 24 = (bitIndex + 18 : ℕ) := by omega
      simp only [if_pos hlow, hrefill, hbit', hplace'']
      rw [ih (by omega) (by omega) (by omega) (by omega)]
    · have hbit' : (bitIndex : ℤ) - 6 = (bitIndex - 6 : ℕ) := by omega
      rw [if_neg hlow, hbit', ih hindex (by omega) (by omega) (by omega)]

/-! ## The reader -/

/-- What `ReadsField` says, of a reader whose buffer holds all of the data in one piece. -/
def ReadsPiece {α : Type} (program : ReaderClass → ReaderM α) (data : List UInt8) (value : α) : Prop :=
  ∀ cls r rest left, Ready cls r r.dataPtr (data ++ rest) left → (cls.isMsg → (data.length : ℤ) ≤ left) →
    Roomy r → HasRoom cls false data.length r → r.dataPtr ≠ r.contentEnd → wp (program cls)
      (fun found r' ↦ found = value ∧ Took cls r r' rest (left - data.length)) (fun _ _ ↦ False) r

theorem sizeCodes_of_lt {fieldSize : ℕ} (hfield : fieldSize < 0xFFFF) : sizeCodes fieldSize = fieldSize + 1 :=
  Nat.mod_eq_of_lt (by omega)

theorem sizeBits_pos_of_lt {fieldSize : ℕ} (hfield : fieldSize < 0xFFFF) : 0 < sizeBits fieldSize := by
  rw [sizeBits, sizeCodes_of_lt hfield, Nat.size_pos]
  exact Nat.succ_pos fieldSize

theorem sizeBits_le_of_lt {fieldSize : ℕ} (hfield : fieldSize < 0xFFFF) : sizeBits fieldSize ≤ 16 := by
  rw [sizeBits, sizeCodes_of_lt hfield, Nat.size_le]
  omega

/-- The high digits of what is loaded are those of the data. -/
theorem loaded_div {mem : Memory} {p : ℤ} {data : List UInt8} {size : ℕ} (hle : data.length ≤ size)
    (hbytes : ByteMemory.bytes mem p data.length = data) :
    ofBigEndian (ByteMemory.bytes mem p size) / 256 ^ (size - data.length) = ofBigEndian data := by
  obtain ⟨rest, hrest, hloaded⟩ := exists_loaded hle hbytes
  have hlt := ofBigEndian_lt rest
  rw [hrest] at hlt
  rw [hloaded, mul_add_div_of_lt _ hlt]

theorem ofBigEndian_bitBytes {count bits : ℕ} (hbits : bits < 2 ^ count) :
    ofBigEndian (bitBytes count bits) = bits * 2 ^ (8 * ((count + 7) / 8) - count) := by
  apply ofBigEndian_bigEndian
  have hpow : 256 ^ ((count + 7) / 8) = 2 ^ count * 2 ^ (8 * ((count + 7) / 8) - count) := by
    rw [show 256 = 2 ^ 8 by rfl, ← pow_mul, ← pow_add]
    congr 1
    omega
  rw [hpow]
  exact Nat.mul_lt_mul_of_pos_right hbits (Nat.two_pow_pos _)

/-- What is loaded at the place of the bits begins with them. -/
theorem loaded_bits {mem : Memory} {p : ℤ} {count bits size front : ℕ} (hbits : bits < 2 ^ count)
    (hfront : front ≤ (count + 7) / 8) (hsize : front ≤ size)
    (hbytes : ByteMemory.bytes mem p front = (bitBytes count bits).take front) {shift behind : ℕ}
    (hshift : 8 * (size - front) ≤ shift) (hbehind : count + shift = behind + 8 * size) :
    ofBigEndian (ByteMemory.bytes mem p size) / 2 ^ shift = bits / 2 ^ behind := by
  have hlength : ((bitBytes count bits).take front).length = front := by
    rw [List.length_take, length_bitBytes, min_eq_left hfront]
  have hloaded := @loaded_div mem p ((bitBytes count bits).take front) size (by rwa [hlength]) (by rwa [hlength])
  have hdrop := ofBigEndian_lt ((bitBytes count bits).drop front)
  rw [List.length_drop, length_bitBytes] at hdrop
  have hnumber : ofBigEndian ((bitBytes count bits).take front) =
      bits * 2 ^ (8 * ((count + 7) / 8) - count) / 256 ^ ((count + 7) / 8 - front) := by
    rw [← ofBigEndian_bitBytes hbits]
    conv_rhs => rw [← List.take_append_drop front (bitBytes count bits), ofBigEndian_append, List.length_drop,
      length_bitBytes, mul_add_div_of_lt _ hdrop]
  have hpow : 2 ^ shift = 256 ^ (size - front) * 2 ^ (shift - 8 * (size - front)) := by
    rw [show 256 = 2 ^ 8 by rfl, ← pow_mul, ← pow_add, Nat.add_sub_cancel' hshift]
  have hpow' : 256 ^ ((count + 7) / 8 - front) * 2 ^ (shift - 8 * (size - front)) =
      2 ^ (8 * ((count + 7) / 8) - count) * 2 ^ behind := by
    rw [show 256 = 2 ^ 8 by rfl, ← pow_mul, ← pow_add, ← pow_add]
    congr 1
    omega
  rw [hlength] at hloaded
  rw [hpow, ← Nat.div_div_eq_div_mul, hloaded, hnumber, Nat.div_div_eq_div_mul, hpow', ← Nat.div_div_eq_div_mul,
    Nat.mul_div_cancel _ (Nat.two_pow_pos _)]

/-- The characters of a value. -/
theorem unpackCharacters_bitBytes {mem : Memory} {p : ℤ} {headerBits len bits : ℕ} (hheader : headerBits ≤ 16)
    (hbits : bits < 2 ^ (headerBits + 6 * len))
    (hbytes : ByteMemory.bytes mem p ((headerBits + 6 * len + 7) / 8) = bitBytes (headerBits + 6 * len) bits) :
    unpackCharacters mem len (ofBigEndian (ByteMemory.bytes mem p 4)) (32 - headerBits - 6) (p + 4) =
      charactersOf len bits := by
  have hlength := length_bitBytes (headerBits + 6 * len) bits
  have hloaded := @loaded_bits mem p (headerBits + 6 * len) bits (4 + 3 * len) _ hbits le_rfl (by omega)
    (by rwa [← hlength, List.take_length, hlength]) (18 * len + (32 - headerBits)) 0 (by omega) (by omega)
  have hunpacked := @unpackCharacters_eq mem p len (4 + 3 * len) 4 (26 - headerBits) (18 * len + (32 - headerBits))
    le_rfl le_rfl (by omega) (by omega)
  have hplace : p + (4 : ℕ) - 4 = p := by omega
  have hindex : ((26 - headerBits : ℕ) : ℤ) = 32 - headerBits - 6 := by omega
  rw [hplace, hindex, hloaded, pow_zero, Nat.div_one] at hunpacked
  exact hunpacked

/-- The length is read, then the characters that it says there are. -/
theorem readsPiece_bitBytes {fieldSize len bits : ℕ} (hfield : fieldSize < 0xFFFF) (hlen : len ≤ fieldSize)
    (hbits : bits < 2 ^ (sizeBits fieldSize + 6 * len)) (hhigh : bits / 2 ^ (6 * len) = len) :
    ReadsPiece (readAlphanumeric fieldSize) (bitBytes (sizeBits fieldSize + 6 * len) bits)
      (some (charactersOf len bits)) := by
  intro cls r rest left hready hleft hroomy hroom hmore
  have hpositive := sizeBits_pos_of_lt hfield
  have hle := sizeBits_le_of_lt hfield
  have hcodes := sizeCodes_of_lt hfield
  have hlength := length_bitBytes (sizeBits fieldSize + 6 * len) bits
  have hheader : (sizeBits fieldSize + 7) / 8 ≤ (sizeBits fieldSize + 6 * len + 7) / 8 :=
    Nat.div_le_div_right (by omega)
  have hwithin : ∀ n : ℕ, n ≤ (sizeBits fieldSize + 6 * len + 7) / 8 →
      ¬ Exceeds cls (bitBytes (sizeBits fieldSize + 6 * len) bits ++ rest) left n := by
    intro n hn
    apply within_iff.mpr
    rw [List.length_append, hlength]
    exact ⟨by omega, fun hmsg ↦ by have := hleft hmsg; omega⟩
  apply wp_beforeEnd hmore
  rw [getAlphanumeric]
  apply wp_call (peek_spec hready hroomy.hasBuffer)
  · intro p r₁ h₁
    obtain ⟨hmoved, hready₁, hbytes, -⟩ := h₁
    rw [List.take_append_of_le_length (hlength ▸ hheader)] at hbytes
    have hloaded := @loaded_bits r₁.mem p (sizeBits fieldSize + 6 * len) bits 4 ((sizeBits fieldSize + 7) / 8) hbits
      hheader (by omega) hbytes (32 - sizeBits fieldSize) (6 * len) (by omega) (by omega)
    have hsize : alphanumericLength fieldSize (ofBigEndian (ByteMemory.bytes r₁.mem p 4)) = len := by
      rw [alphanumericLength, Nat.shiftRight_eq_div_pow, hloaded, hhigh]
    have hother : ¬ sizeCodes fieldSize = len := by omega
    rw [wp_bind, wp_get, hsize, if_neg hother, Nat.mul_comm len 6]
    apply wp_call (bytes_spec hready₁ (hmoved.roomy.mpr hroomy).hasBuffer)
    · intro p' r₂ h₂
      obtain ⟨hmoved', hready₂, hbytes', -⟩ := h₂
      rw [List.take_left' hlength] at hbytes'
      rw [List.drop_left' hlength, ← hlength] at hready₂
      rw [wp_bind, wp_get]
      simp only [unpackCharacters_bitBytes hle hbits hbytes']
      exact wp_pure.mpr ⟨rfl, hmoved.trans hmoved', hready₂⟩
    · intro _ _ h'
      rw [hmoved.hasRoom, ← hlength] at h'
      rcases h' with hexceeds | hsmall
      · exact hwithin _ hlength.le hexceeds
      · exact hsmall hroom
  · intro _ _ h'
    rcases h' with hexceeds | hsmall
    · exact hwithin _ hheader hexceeds
    · exact hsmall (hroomy.hasRoom false (by omega))

/-! ## What is refused -/

theorem charactersPatch_none {c : ℕ} (hc : c ∈ str) (hlt : c < 2 ^ 32) (hnot : ¬ (0x20 ≤ c ∧ c < 0x60))
    (accumulator : ℕ) (nBitsFree : ℤ) : charactersPatch unassigned str accumulator nBitsFree = none := by
  induction str generalizing accumulator nBitsFree with
  | nil => cases hc
  | cons first str ih =>
    rw [charactersPatch]
    rcases List.mem_cons.mp hc with rfl | hrest
    · have hcode := le_alphanumericCode hlt hnot
      simp only [if_pos hcode, both_none, ite_self]
    · simp only [ih hrest, both_none, ite_self]

/-- A string is written if and only if it is not too long and its characters are among the sixty-four. -/
theorem alphanumericPatch_none {fieldSize : ℕ} (hlt : ∀ c ∈ str, c < 2 ^ 32) (h : ¬ IsAlphanumeric fieldSize str) :
    alphanumericPatch unassigned fieldSize str = none := by
  rw [alphanumericPatch]
  by_cases hlong : fieldSize < str.length
  · rw [if_pos hlong]
  obtain ⟨c, hc, hnot⟩ : ∃ c ∈ str, ¬ (0x20 ≤ c ∧ c < 0x60) := by
    by_contra hall
    exact h ⟨not_lt.mp hlong, fun c hc ↦ by_contra fun hnot ↦ hall ⟨c, hc, hnot⟩⟩
  have hlength := List.length_pos_of_mem hc
  rw [charactersPatch_none hc (hlt c hc) hnot, if_neg hlength.ne', ite_self, ite_self]

theorem holds_alphanumericPatch {fieldSize : ℕ} (hfield : fieldSize < 0xFFFF) (h : IsAlphanumeric fieldSize str) :
    ∃ p, alphanumericPatch unassigned fieldSize str = some p ∧
      p.Holds (bitBytes (sizeBits fieldSize + 6 * str.length)
        (sentBits unassigned str str.length (sizeBits fieldSize))) := by
  have hpositive := sizeBits_pos_of_lt hfield
  have hle := sizeBits_le_of_lt hfield
  have hlength := h.1
  have hcodes := sizeCodes_of_lt hfield
  rw [alphanumericPatch, if_neg (by omega), if_neg (by omega)]
  by_cases hempty : str.length = 0
  · obtain rfl := List.length_eq_zero_iff.mp hempty
    have hcount : (sizeBits fieldSize + 7) / 8 ≤ 4 := by omega
    have hzeros : littleEndian ((sizeBits fieldSize + 7) / 8) 0 = bitBytes (sizeBits fieldSize) 0 := by
      rw [bitBytes, Nat.zero_mul]
      rcases (by omega : (sizeBits fieldSize + 7) / 8 = 1 ∨ (sizeBits fieldSize + 7) / 8 = 2) with hone | htwo
      · rw [hone]
        rfl
      · rw [htwo]
        rfl
    have hholds := Patch.holds_littleEndian 0 hcount
    rw [hzeros] at hholds
    refine ⟨_, if_pos hempty, ?_⟩
    rwa [sentBits, List.length_nil, Nat.zero_mod, Nat.mul_zero, Nat.add_zero]
  · obtain ⟨p, hp, hholds⟩ := @charactersPatch_eq unassigned str h.2 str.length (sizeBits fieldSize) (by omega)
    have hfree : ((64 - sizeBits fieldSize : ℕ) : ℤ) = 64 - sizeBits fieldSize := by omega
    rw [hfree] at hp
    exact ⟨p, (if_neg hempty).trans hp, hholds⟩

/-! ## Null -/

theorem readsField_alphanumericNull {fieldSize : ℕ} (hcodes : sizeCodes fieldSize ≠ 0) :
    ReadsField (readAlphanumeric fieldSize) (bitBytes (sizeBits fieldSize) (sizeCodes fieldSize)) none := by
  apply readsField_of_decodes none
  intro cls
  have hpositive : 0 < sizeBits fieldSize := Nat.size_pos.mpr (Nat.pos_of_ne_zero hcodes)
  have hle : sizeBits fieldSize ≤ 32 := Nat.size_le.mpr (Nat.mod_lt _ (by decide))
  have hlength := length_bitBytes (sizeBits fieldSize) (sizeCodes fieldSize)
  have hskip : Decodes cls (do skip cls (bitBytes (sizeBits fieldSize) (sizeCodes fieldSize)).length; return none)
      (bitBytes (sizeBits fieldSize) (sizeCodes fieldSize) ++ []) (none : Option (List ℕ)) :=
    (decodes_skip _).bind (decodes_pure none)
  rw [List.append_nil, hlength] at hskip
  apply decodes_peek (by omega) hlength.ge _ hskip
  intro p r hpeek
  have hloaded := @loaded_bits r.mem p (sizeBits fieldSize) (sizeCodes fieldSize) 4 ((sizeBits fieldSize + 7) / 8)
    (Nat.lt_size_self _) le_rfl (by omega) hpeek (32 - sizeBits fieldSize) 0 (by omega) (by omega)
  have hsize : alphanumericLength fieldSize (ofBigEndian (ByteMemory.bytes r.mem p 4)) = sizeCodes fieldSize := by
    rw [alphanumericLength, Nat.shiftRight_eq_div_pow, hloaded, pow_zero, Nat.div_one]
  rw [hsize, if_pos rfl]

theorem holds_nullPatch {fieldSize : ℕ} (hfield : fieldSize < 0xFFFF) :
    (alphanumericNullPatch fieldSize).Holds (bitBytes (sizeBits fieldSize) (sizeCodes fieldSize)) := by
  have hpositive := sizeBits_pos_of_lt hfield
  have hle := sizeBits_le_of_lt hfield
  have hcount : (sizeBits fieldSize + 7) / 8 ≤ 4 := by omega
  have hholds := Patch.holds_bigEndian (sizeCodes fieldSize * 2 ^ (32 - sizeBits fieldSize)) hcount
  have hpow : 2 ^ (32 - sizeBits fieldSize) =
      2 ^ (8 * ((sizeBits fieldSize + 7) / 8) - sizeBits fieldSize) * 256 ^ (4 - (sizeBits fieldSize + 7) / 8) := by
    rw [show 256 = 2 ^ 8 by rfl, ← pow_mul, ← pow_add]
    congr 1
    omega
  rw [hpow, ← Nat.mul_assoc, Nat.mul_div_cancel _ (Nat.pow_pos (by decide))] at hholds
  rwa [alphanumericNullPatch, hpow, ← Nat.mul_assoc]

/-! ## The trip -/

theorem length_lt_of_isAlphanumeric {fieldSize : ℕ} (hfield : fieldSize < 0xFFFF) (h : IsAlphanumeric fieldSize str) :
    str.length < 2 ^ sizeBits fieldSize := by
  have hlength := h.1
  have hcodes := sizeCodes_of_lt hfield
  exact lt_trans (by omega : str.length < sizeCodes fieldSize) (Nat.lt_size_self _)

/-- The length is sent as it is. -/
theorem sentBits_length {fieldSize : ℕ} (hunassigned : ∀ i, unassigned i < 2 ^ 32) (hfield : fieldSize < 0xFFFF)
    (h : IsAlphanumeric fieldSize str) :
    sentBits unassigned str str.length (sizeBits fieldSize) / 2 ^ (6 * str.length) = str.length := by
  have hle := sizeBits_le_of_lt hfield
  have hdiv := @sentBits_div unassigned str hunassigned h.2 str.length (sizeBits fieldSize) (sizeBits fieldSize)
    (by omega) le_rfl (by omega)
  rwa [Nat.sub_self, Nat.zero_add, pow_zero, Nat.div_one, Nat.mod_eq_of_lt (length_lt_of_isAlphanumeric hfield h)] at hdiv

/-- The characters are read as they were if and only if the words agree. -/
theorem charactersOf_sentBits_iff {fieldSize : ℕ} (hunassigned : ∀ i, unassigned i < 2 ^ 32)
    (hfield : fieldSize < 0xFFFF) (h : IsAlphanumeric fieldSize str) :
    charactersOf str.length (sentBits unassigned str str.length (sizeBits fieldSize)) = str ↔
      RefillsAgree unassigned str str.length (sizeBits fieldSize) := by
  have hpositive := sizeBits_pos_of_lt hfield
  have hle := sizeBits_le_of_lt hfield
  have hhigh := sentBits_length hunassigned hfield h
  have hcodes := codesNumber_lt h.2
  have hsize := length_lt_of_isAlphanumeric hfield h
  have hpow : 2 ^ (6 * str.length) = 64 ^ str.length := Nat.pow_mul 2 6 str.length
  have hlow : sentBits unassigned str str.length (sizeBits fieldSize) % 64 ^ str.length < 64 ^ str.length :=
    Nat.mod_lt _ (Nat.pow_pos (by decide))
  have hdigits := Nat.div_add_mod' (sentBits unassigned str str.length (sizeBits fieldSize)) (64 ^ str.length)
  rw [hpow] at hhigh
  rw [hhigh] at hdigits
  have hnumber : str.length * 64 ^ str.length + codesNumber str < 2 ^ (sizeBits fieldSize + 6 * str.length) :=
    calc
      _ < str.length * 64 ^ str.length + 64 ^ str.length := Nat.add_lt_add_left hcodes _
      _ = (str.length + 1) * 64 ^ str.length := by ring
      _ ≤ 2 ^ sizeBits fieldSize * 64 ^ str.length := Nat.mul_le_mul_right _ hsize
      _ = _ := by rw [← hpow, ← pow_add]
  have hequal := @mul_add_inj _ str.length str.length _ _ hlow hcodes
  rw [hdigits, and_iff_right rfl] at hequal
  rw [charactersOf_eq_iff h.2, ← sentBits_eq_iff h.2 hpositive (by omega : sizeBits fieldSize ≤ 64) rfl rfl,
    Nat.mod_eq_of_lt hnumber, hequal]

/-- A string, and null, of any field: what is refused is refused, null is read as null, and a string is
read as one of the same length, the same one if and only if the words agree. -/
theorem writeAlphanumeric_survives_iff (unassigned : ℕ → UInt32) (fieldSize : Fin 0xFFFF) (str : List UInt32)
    (w : DataWriter) :
    wp (putAlphanumeric (fun i ↦ (unassigned i).toNat) fieldSize (str.map UInt32.toNat))
        (fun _ w' ↦ IsAlphanumeric fieldSize (str.map UInt32.toNat) ∧ ∃ found : List ℕ,
          ReadsPiece (readAlphanumeric fieldSize) (written w w') (some found) ∧ found.length = str.length ∧
            (found = str.map UInt32.toNat ↔
              RefillsAgree (fun i ↦ (unassigned i).toNat) (str.map UInt32.toNat) str.length (sizeBits fieldSize)))
        (fun _ _ ↦ ¬ IsAlphanumeric fieldSize (str.map UInt32.toNat) ∨
          w.dataEnd < w.dataPtr + ((sizeBits fieldSize + 6 * str.length + 7) / 8 : ℕ)) w ∧
      ∀ stringLength, wp (putAlphanumericOfNull fieldSize stringLength)
        (fun _ w' ↦ stringLength ≤ fieldSize ∧ ReadsField (readAlphanumeric fieldSize) (written w w') none)
        (fun _ _ ↦ ¬ stringLength ≤ fieldSize ∨ w.dataEnd < w.dataPtr + ((sizeBits fieldSize + 7) / 8 : ℕ)) w := by
  have hfield := fieldSize.isLt
  have hunassigned : ∀ i, (unassigned i).toNat < 2 ^ 32 := fun i ↦ (unassigned i).toNat_lt
  have hlt : ∀ c ∈ str.map UInt32.toNat, c < 2 ^ 32 := by
    intro c hc
    obtain ⟨char, -, rfl⟩ := List.mem_map.mp hc
    exact char.toNat_lt
  have hlength : (str.map UInt32.toNat).length = str.length := List.length_map _
  constructor
  · apply wp_of_puts (IsAlphanumeric fieldSize (str.map UInt32.toNat))
      (fun data ↦ ∃ found : List ℕ, ReadsPiece (readAlphanumeric fieldSize) data (some found) ∧
        found.length = str.length ∧ (found = str.map UInt32.toNat ↔
          RefillsAgree (fun i ↦ (unassigned i).toNat) (str.map UInt32.toNat) str.length (sizeBits fieldSize)))
      _ (puts_putAlphanumeric _ _ _ w) (alphanumericPatch_none hlt)
    intro haccepted
    obtain ⟨p, hp, hholds⟩ := holds_alphanumericPatch hfield haccepted
    have hread := readsPiece_bitBytes hfield haccepted.1 (sentBits_lt _ _ _ _)
      (sentBits_length hunassigned hfield haccepted)
    have hsame := charactersOf_sentBits_iff hunassigned hfield haccepted
    rw [hlength] at hholds hread hsame
    exact ⟨p, _, hp, hholds, (length_bitBytes _ _).le, _, hread, length_charactersOf _ _, hsame⟩
  · intro stringLength
    apply wp_of_puts (stringLength ≤ fieldSize) (fun data ↦ ReadsField (readAlphanumeric fieldSize) data none) _
      (puts_putAlphanumericOfNull fieldSize stringLength w)
    · exact fun hlong ↦ if_pos (not_le.mp hlong)
    · exact fun hshort ↦ ⟨_, _, if_neg (not_lt.mpr hshort), holds_nullPatch hfield, (length_bitBytes _ _).le,
        readsField_alphanumericNull (by rw [sizeCodes_of_lt hfield]; exact Nat.succ_ne_zero _)⟩

/-- Every buffer has room for a few bytes. -/
theorem ReadsPiece.readsField {α : Type} {program : ReaderClass → ReaderM α} {data : List UInt8} {value : α}
    (h : ReadsPiece program data value) (hsmall : data.length ≤ 0x200) : ReadsField program data value :=
  fun cls r rest left hready hleft hroomy hmore ↦
    h cls r rest left hready hleft hroomy (hroomy.hasRoom false (by omega)) hmore

/-- The "_" behind nine "A" in a field of sixteen characters lies across two words; where the unassigned variable
holds the "A" before it, its high bits are those of an "A". -/
theorem alphanumeric_lost :
    ¬ ∀ (unassigned : ℕ → UInt32) (fieldSize : Fin 0xFFFF) (str : List UInt32) (w : DataWriter),
      IsAlphanumeric fieldSize (str.map UInt32.toNat) →
      wp (putAlphanumeric (fun i ↦ (unassigned i).toNat) fieldSize (str.map UInt32.toNat))
        (fun _ w' ↦ ReadsPiece (readAlphanumeric fieldSize) (written w w') (some (str.map UInt32.toNat)))
        (fun _ _ ↦ w.dataEnd < w.dataPtr + ((sizeBits fieldSize + 6 * str.length + 7) / 8 : ℕ)) w := by
  intro hall
  let w : DataWriter := ⟨fun _ ↦ 0, 0, 16, 0, 0, fun _ ↦ 0, fun _ ↦ false, fun _ ↦ 0, []⟩
  let str : List ℕ := List.replicate 9 0x41 ++ [0x5F]
  let program : WriterM Unit := putAlphanumeric (fun _ ↦ 0x21) 16 str
  let bits := sentBits (fun _ ↦ 0x21) str 10 5
  have hstr : (List.replicate 9 0x41 ++ [0x5F] : List UInt32).map UInt32.toNat = str := by decide
  have hsurvives := hall (fun _ ↦ 0x21) 16 (List.replicate 9 0x41 ++ [0x5F]) w ⟨by decide, by decide⟩
  rw [hstr] at hsurvives
  change wp program _ _ w at hsurvives
  have hreturns : program w = .ok () (finalState program w) := eq_ok_of_returns (by decide +kernel)
  have hbytes : written w (finalState program w) = bitBytes (sizeBits 16 + 6 * 10) bits := by decide +kernel
  have hread : ReadsPiece (readAlphanumeric 16) (bitBytes (sizeBits 16 + 6 * 10) bits) (some (charactersOf 10 bits)) :=
    readsPiece_bitBytes (by decide) (by decide) (by decide +kernel) (by decide +kernel)
  rw [wp_ok hreturns, hbytes] at hsurvives
  have hsame := (hread.readsField (by decide +kernel)).unique (hsurvives.readsField (by decide +kernel))
    (by decide +kernel) (by decide +kernel)
  exact absurd hsame (by decide +kernel)

end DxApi.Reader
