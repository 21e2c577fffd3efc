import DxApi.Net.Request
import Mathlib.Algebra.Order.Floor.Div

/-!
# Base 64

Three bytes at a time become four characters of six bits each. The last group may have one or two bytes:
its characters are written over a padding that is there before.
-/

namespace DxApi.Net

open Request

/-! ## The source -/

def base64chars : List UInt8 := text "ABCDEFGHIJKLMNOPQRSTUVWXYZabcdefghijklmnopqrstuvwxyz0123456789+/"

/-- `base64chars[x & 0x3F]`. -/
def base64char (x : ℕ) : UInt8 := base64chars.getD (x &&& 0x3F) 0

/-- The bytes of a group, one behind the other. -/
def groupBits (group : List UInt8) : ℕ := group.foldl (fun x c ↦ x <<< 8 ||| c.toNat) 0

/-- The `do` loop: it writes `dest[m]` first and `dest[0]` last. -/
def writeGroup : ℕ → ℕ → List UInt8 → List UInt8
  | 0, x, dest => dest.set 0 (base64char x)
  | m + 1, x, dest => writeGroup m (x >>> 6) (dest.set (m + 1) (base64char x))

/-- What is done for a group, on the four characters at `dest`. -/
def encodeGroup (dest group : List UInt8) : List UInt8 :=
  writeGroup group.length (groupBits group <<< (2 * (3 - group.length))) ((dest.set 3 0x3D).set 2 0x3D)

/-- `base64_encode` into the memory at `dest`. -/
def base64EncodeTo (dest src : List UInt8) : List UInt8 :=
  match src with
  | [] => dest
  | c :: src =>
    encodeGroup (dest.take 4) ((c :: src).take 3) ++ base64EncodeTo (dest.drop 4) ((c :: src).drop 3)
termination_by src.length

/-- `base64_encode` into a string, which is resized. -/
def base64Encode (src : List UInt8) : List UInt8 :=
  if src = [] then [] else base64EncodeTo (List.replicate ((src.length + 2) / 3 * 4) 0) src

/-! ## The standard -/

/-- The number that a character of the alphabet stands for. -/
def base64Value (c : UInt8) : Option ℕ :=
  if 0x41 ≤ c ∧ c ≤ 0x5A then some (c.toNat - 0x41)
  else if 0x61 ≤ c ∧ c ≤ 0x7A then some (c.toNat - 0x61 + 26)
  else if 0x30 ≤ c ∧ c ≤ 0x39 then some (c.toNat - 0x30 + 52)
  else if c = 0x2B then some 62
  else if c = 0x2F then some 63
  else none

/-- The byte of a group of two characters; the bits behind it are zero. -/
def decodeOne (a b : UInt8) : Option (List UInt8) := do
  let a ← base64Value a
  let b ← base64Value b
  if b % 16 = 0 then some [UInt8.ofNat (a * 4 + b / 16)] else none

/-- The bytes of a group of three characters. -/
def decodeTwo (a b c : UInt8) : Option (List UInt8) := do
  let a ← base64Value a
  let b ← base64Value b
  let c ← base64Value c
  if c % 4 = 0 then some [UInt8.ofNat (a * 4 + b / 16), UInt8.ofNat (b % 16 * 16 + c / 4)] else none

/-- The bytes of a group of four characters. -/
def decodeThree (a b c d : UInt8) : Option (List UInt8) := do
  let a ← base64Value a
  let b ← base64Value b
  let c ← base64Value c
  let d ← base64Value d
  some [UInt8.ofNat (a * 4 + b / 16), UInt8.ofNat (b % 16 * 16 + c / 4), UInt8.ofNat (c % 4 * 64 + d)]

/-- What a text in base 64 stands for; only its last group may be padded. -/
def base64Decode : List UInt8 → Option (List UInt8)
  | [] => some []
  | a :: b :: c :: d :: rest =>
    if rest = [] ∧ c = 0x3D ∧ d = 0x3D then decodeOne a b
    else if rest = [] ∧ d = 0x3D then decodeTwo a b c
    else do
      let bytes ← decodeThree a b c d
      let later ← base64Decode rest
      some (bytes ++ later)
  | _ => none

/-- The characters of some bytes, group by group. -/
def standardForm : List UInt8 → List UInt8
  | [] => []
  | [a] => [base64char (a.toNat / 4), base64char (a.toNat % 4 * 16), 0x3D, 0x3D]
  | [a, b] =>
    [base64char (a.toNat / 4), base64char (a.toNat % 4 * 16 + b.toNat / 16), base64char (b.toNat % 16 * 4), 0x3D]
  | a :: b :: c :: rest =>
    [base64char (a.toNat / 4), base64char (a.toNat % 4 * 16 + b.toNat / 16),
      base64char (b.toNat % 16 * 4 + c.toNat / 64), base64char (c.toNat % 64)] ++ standardForm rest

/-! ## The groups -/

variable {x : ℕ} {a b c : UInt8} {dest src : List UInt8}

/-- Six bits of the number make the character. -/
theorem base64char_congr {y : ℕ} (h : x % 64 = y % 64) : base64char x = base64char y := by
  rw [base64char, base64char, Nat.and_two_pow_sub_one_eq_mod _ 6, Nat.and_two_pow_sub_one_eq_mod _ 6]
  exact congrArg (base64chars.getD · 0) h

theorem shiftLeft_or (x : ℕ) (c : UInt8) : x <<< 8 ||| c.toNat = x * 256 + c.toNat := by
  rw [← Nat.shiftLeft_add_eq_or_of_lt c.toNat_lt, Nat.shiftLeft_eq]

@[simp]
theorem groupBits_one (a : UInt8) : groupBits [a] = a.toNat := by
  rw [groupBits, List.foldl_cons, List.foldl_nil, shiftLeft_or, Nat.zero_mul, Nat.zero_add]

@[simp]
theorem groupBits_two (a b : UInt8) : groupBits [a, b] = a.toNat * 256 + b.toNat := by
  rw [← groupBits_one a, ← shiftLeft_or]
  rfl

@[simp]
theorem groupBits_three (a b c : UInt8) :
    groupBits [a, b, c] = (a.toNat * 256 + b.toNat) * 256 + c.toNat := by
  rw [← groupBits_two a b, ← shiftLeft_or]
  rfl

theorem exists_four (hdest : dest.length = 4) : ∃ w₀ w₁ w₂ w₃, dest = [w₀, w₁, w₂, w₃] := by
  match dest, hdest with
  | [w₀, w₁, w₂, w₃], _ => exact ⟨w₀, w₁, w₂, w₃, rfl⟩

theorem encodeGroup_one (hdest : dest.length = 4) (a : UInt8) : encodeGroup dest [a] = standardForm [a] := by
  obtain ⟨w₀, w₁, w₂, w₃, rfl⟩ := exists_four hdest
  calc
    encodeGroup [w₀, w₁, w₂, w₃] [a] =
        [base64char (a.toNat <<< 4 >>> 6), base64char (a.toNat <<< 4), 0x3D, 0x3D] := by
      rw [encodeGroup, groupBits_one]
      rfl
    _ = standardForm [a] := by
      have hfirst : base64char (a.toNat * 2 ^ 4 / 2 ^ 6) = base64char (a.toNat / 4) := base64char_congr (by omega)
      have hsecond : base64char (a.toNat * 2 ^ 4) = base64char (a.toNat % 4 * 16) := base64char_congr (by omega)
      rw [standardForm, Nat.shiftLeft_eq, Nat.shiftRight_eq_div_pow, hfirst, hsecond]

theorem encodeGroup_two (hdest : dest.length = 4) (a b : UInt8) :
    encodeGroup dest [a, b] = standardForm [a, b] := by
  obtain ⟨w₀, w₁, w₂, w₃, rfl⟩ := exists_four hdest
  have hb := b.toNat_lt
  calc
    encodeGroup [w₀, w₁, w₂, w₃] [a, b] =
        [base64char ((a.toNat * 256 + b.toNat) <<< 2 >>> 6 >>> 6),
          base64char ((a.toNat * 256 + b.toNat) <<< 2 >>> 6), base64char ((a.toNat * 256 + b.toNat) <<< 2), 0x3D] := by
      rw [encodeGroup, groupBits_two]
      rfl
    _ = standardForm [a, b] := by
      have hfirst : base64char ((a.toNat * 256 + b.toNat) * 2 ^ 2 / 2 ^ 6 / 2 ^ 6) = base64char (a.toNat / 4) :=
        base64char_congr (by omega)
      have hsecond : base64char ((a.toNat * 256 + b.toNat) * 2 ^ 2 / 2 ^ 6) =
          base64char (a.toNat % 4 * 16 + b.toNat / 16) := base64char_congr (by omega)
      have hthird : base64char ((a.toNat * 256 + b.toNat) * 2 ^ 2) = base64char (b.toNat % 16 * 4) :=
        base64char_congr (by omega)
      rw [standardForm, Nat.shiftLeft_eq, Nat.shiftRight_eq_div_pow, Nat.shiftRight_eq_div_pow, hfirst, hsecond,
        hthird]

theorem encodeGroup_three (hdest : dest.length = 4) (a b c : UInt8) :
    encodeGroup dest [a, b, c] = standardForm [a, b, c] := by
  obtain ⟨w₀, w₁, w₂, w₃, rfl⟩ := exists_four hdest
  have hb := b.toNat_lt
  have hc := c.toNat_lt
  calc
    encodeGroup [w₀, w₁, w₂, w₃] [a, b, c] =
        [base64char (((a.toNat * 256 + b.toNat) * 256 + c.toNat) >>> 6 >>> 6 >>> 6),
          base64char (((a.toNat * 256 + b.toNat) * 256 + c.toNat) >>> 6 >>> 6),
          base64char (((a.toNat * 256 + b.toNat) * 256 + c.toNat) >>> 6),
          base64char ((a.toNat * 256 + b.toNat) * 256 + c.toNat)] := by
      rw [encodeGroup, groupBits_three]
      rfl
    _ = standardForm [a, b, c] := by
      have hfirst : base64char (((a.toNat * 256 + b.toNat) * 256 + c.toNat) / 2 ^ 6 / 2 ^ 6 / 2 ^ 6) =
          base64char (a.toNat / 4) := base64char_congr (by omega)
      have hsecond : base64char (((a.toNat * 256 + b.toNat) * 256 + c.toNat) / 2 ^ 6 / 2 ^ 6) =
          base64char (a.toNat % 4 * 16 + b.toNat / 16) := base64char_congr (by omega)
      have hthird : base64char (((a.toNat * 256 + b.toNat) * 256 + c.toNat) / 2 ^ 6) =
          base64char (b.toNat % 16 * 4 + c.toNat / 64) := base64char_congr (by omega)
      have hfourth : base64char ((a.toNat * 256 + b.toNat) * 256 + c.toNat) = base64char (c.toNat % 64) :=
        base64char_congr (by omega)
      rw [standardForm, standardForm, List.append_nil, Nat.shiftRight_eq_div_pow, Nat.shiftRight_eq_div_pow,
        Nat.shiftRight_eq_div_pow, hfirst, hsecond, hthird, hfourth]

/-! ## The run -/

theorem length_standardForm (src : List UInt8) : (standardForm src).length = 4 * (src.length ⌈/⌉ 3) := by
  rw [Nat.ceilDiv_eq_add_pred_div]
  fun_induction standardForm src with
  | case1 => simp only [List.length_nil]
  | case2 a => simp only [List.length_cons, List.length_nil]
  | case3 a b => simp only [List.length_cons, List.length_nil]
  | case4 a b c rest ih =>
    rw [List.length_append, ih]
    simp only [List.length_cons, List.length_nil]
    omega

theorem base64EncodeTo_cons (dest src : List UInt8) (c : UInt8) :
    base64EncodeTo dest (c :: src) =
      encodeGroup (dest.take 4) ((c :: src).take 3) ++ base64EncodeTo (dest.drop 4) ((c :: src).drop 3) := by
  rw [base64EncodeTo]

/-- The last group fills what is left of the memory. -/
theorem base64EncodeTo_last (hdest : dest.length = 4) (hsrc : (c :: src).length ≤ 3) :
    base64EncodeTo dest (c :: src) = encodeGroup dest (c :: src) := by
  rw [base64EncodeTo_cons, List.take_of_length_le hdest.le, List.take_of_length_le hsrc,
    List.drop_eq_nil_of_le hdest.le, List.drop_eq_nil_of_le hsrc, base64EncodeTo, List.append_nil]

/-- Whatever the memory held before, it holds the standard form then. -/
theorem base64EncodeTo_eq (hdest : dest.length = 4 * (src.length ⌈/⌉ 3)) :
    base64EncodeTo dest src = standardForm src := by
  rw [Nat.ceilDiv_eq_add_pred_div] at hdest
  fun_induction standardForm src generalizing dest with
  | case1 =>
    rw [base64EncodeTo]
    exact List.eq_nil_of_length_eq_zero hdest
  | case2 a =>
    simp only [List.length_cons, List.length_nil] at hdest
    rw [base64EncodeTo_last hdest (by simp), encodeGroup_one hdest, standardForm]
  | case3 a b =>
    simp only [List.length_cons, List.length_nil] at hdest
    rw [base64EncodeTo_last hdest (by simp), encodeGroup_two hdest, standardForm]
  | case4 a b c rest ih =>
    simp only [List.length_cons] at hdest
    have hfour : (dest.take 4).length = 4 := by
      rw [List.length_take]
      omega
    have hrest : (dest.drop 4).length = 4 * ((rest.length + 3 - 1) / 3) := by
      rw [List.length_drop]
      omega
    calc
      base64EncodeTo dest (a :: b :: c :: rest) =
          encodeGroup (dest.take 4) [a, b, c] ++ base64EncodeTo (dest.drop 4) rest := base64EncodeTo_cons dest _ a
      _ = standardForm [a, b, c] ++ standardForm rest := by rw [encodeGroup_three hfour, ih hrest]
      _ = standardForm (a :: b :: c :: rest) := by
        rw [standardForm, standardForm, List.append_nil]
        rfl

theorem base64Encode_eq (src : List UInt8) : base64Encode src = standardForm src := by
  rw [base64Encode]
  split_ifs with hnil
  · rw [hnil, standardForm]
  · apply base64EncodeTo_eq
    rw [List.length_replicate, Nat.ceilDiv_eq_add_pred_div]
    omega

/-! ## Reading it back -/

/-- Each number of six bits has its character. -/
theorem base64Value_base64char (hx : x < 64) : base64Value (base64char x) = some x := by
  have hall : ∀ i : Fin 64, base64Value (base64char i) = some i.1 := by decide +kernel
  exact hall ⟨x, hx⟩

theorem base64char_ne_pad (x : ℕ) : base64char x ≠ 0x3D := by
  have hmod : base64char x = base64char (x % 64) := base64char_congr (Nat.mod_mod x 64).symm
  have hvalue := base64Value_base64char (Nat.mod_lt x (by decide : 64 > 0))
  intro hpad
  have hnone : base64Value 0x3D = none := by decide
  rw [← hmod, hpad, hnone] at hvalue
  cases hvalue

theorem decodeOne_char (a : UInt8) :
    decodeOne (base64char (a.toNat / 4)) (base64char (a.toNat % 4 * 16)) = some [a] := by
  have ha := a.toNat_lt
  have hbyte : a.toNat / 4 * 4 + a.toNat % 4 * 16 / 16 = a.toNat := by omega
  have hzero : a.toNat % 4 * 16 % 16 = 0 := by omega
  simp only [decodeOne, base64Value_base64char (show a.toNat / 4 < 64 by omega),
    base64Value_base64char (show a.toNat % 4 * 16 < 64 by omega), Option.bind_eq_bind, Option.bind_some, hbyte, hzero,
    if_true, UInt8.ofNat_toNat]

theorem decodeTwo_char (a b : UInt8) :
    decodeTwo (base64char (a.toNat / 4)) (base64char (a.toNat % 4 * 16 + b.toNat / 16))
      (base64char (b.toNat % 16 * 4)) = some [a, b] := by
  have ha := a.toNat_lt
  have hb := b.toNat_lt
  have hfirst : a.toNat / 4 * 4 + (a.toNat % 4 * 16 + b.toNat / 16) / 16 = a.toNat := by omega
  have hsecond : (a.toNat % 4 * 16 + b.toNat / 16) % 16 * 16 + b.toNat % 16 * 4 / 4 = b.toNat := by omega
  have hzero : b.toNat % 16 * 4 % 4 = 0 := by omega
  simp only [decodeTwo, base64Value_base64char (show a.toNat / 4 < 64 by omega),
    base64Value_base64char (show a.toNat % 4 * 16 + b.toNat / 16 < 64 by omega),
    base64Value_base64char (show b.toNat % 16 * 4 < 64 by omega), Option.bind_eq_bind, Option.bind_some, hfirst,
    hsecond, hzero, if_true, UInt8.ofNat_toNat]

theorem decodeThree_char (a b c : UInt8) :
    decodeThree (base64char (a.toNat / 4)) (base64char (a.toNat % 4 * 16 + b.toNat / 16))
      (base64char (b.toNat % 16 * 4 + c.toNat / 64)) (base64char (c.toNat % 64)) = some [a, b, c] := by
  have ha := a.toNat_lt
  have hb := b.toNat_lt
  have hc := c.toNat_lt
  have hfirst : a.toNat / 4 * 4 + (a.toNat % 4 * 16 + b.toNat / 16) / 16 = a.toNat := by omega
  have hsecond : (a.toNat % 4 * 16 + b.toNat / 16) % 16 * 16 + (b.toNat % 16 * 4 + c.toNat / 64) / 4 = b.toNat := by
    omega
  have hthird : (b.toNat % 16 * 4 + c.toNat / 64) % 4 * 64 + c.toNat % 64 = c.toNat := by omega
  simp only [decodeThree, base64Value_base64char (show a.toNat / 4 < 64 by omega),
    base64Value_base64char (show a.toNat % 4 * 16 + b.toNat / 16 < 64 by omega),
    base64Value_base64char (show b.toNat % 16 * 4 + c.toNat / 64 < 64 by omega),
    base64Value_base64char (show c.toNat % 64 < 64 by omega), Option.bind_eq_bind, Option.bind_some, hfirst,
    hsecond, hthird, UInt8.ofNat_toNat]

theorem base64Decode_standardForm (src : List UInt8) : base64Decode (standardForm src) = some src := by
  fun_induction standardForm src with
  | case1 => rfl
  | case2 a =>
    rw [base64Decode, if_pos ⟨rfl, rfl, rfl⟩]
    exact decodeOne_char a
  | case3 a b =>
    rw [base64Decode, if_neg (fun h ↦ base64char_ne_pad _ h.2.1), if_pos ⟨rfl, rfl⟩]
    exact decodeTwo_char a b
  | case4 a b c rest ih =>
    rw [List.cons_append, List.cons_append, List.cons_append, List.cons_append, List.nil_append, base64Decode,
      if_neg (fun h ↦ base64char_ne_pad _ h.2.1), if_neg (fun h ↦ base64char_ne_pad _ h.2), decodeThree_char, ih]
    rfl

/-- A text of the alphabet, with the padding of `n` bytes at its end. -/
def IsPadded (n : ℕ) (encoded : List UInt8) : Prop :=
  ∃ body, encoded = body ++ List.replicate ((3 - n % 3) % 3) 0x3D ∧ ∀ c ∈ body, (base64Value c).isSome

theorem isSome_base64Value (x : ℕ) : (base64Value (base64char x)).isSome := by
  rw [base64char_congr (Nat.mod_mod x 64).symm, base64Value_base64char (Nat.mod_lt x (by decide : 64 > 0))]
  rfl

theorem isPadded_standardForm (src : List UInt8) : IsPadded src.length (standardForm src) := by
  fun_induction standardForm src with
  | case1 => exact ⟨[], rfl, fun c hc ↦ absurd hc List.not_mem_nil⟩
  | case2 a =>
    refine ⟨[base64char _, base64char _], rfl, ?_⟩
    simp only [List.forall_mem_cons, isSome_base64Value, true_and]
    exact fun c hc ↦ absurd hc List.not_mem_nil
  | case3 a b =>
    refine ⟨[base64char _, base64char _, base64char _], rfl, ?_⟩
    simp only [List.forall_mem_cons, isSome_base64Value, true_and]
    exact fun c hc ↦ absurd hc List.not_mem_nil
  | case4 a b c rest ih =>
    obtain ⟨body, hbody, hall⟩ := ih
    have hlength : (a :: b :: c :: rest).length % 3 = rest.length % 3 := by
      simp only [List.length_cons]
      omega
    refine ⟨[base64char (a.toNat / 4), base64char (a.toNat % 4 * 16 + b.toNat / 16),
      base64char (b.toNat % 16 * 4 + c.toNat / 64), base64char (c.toNat % 64)] ++ body, ?_, ?_⟩
    · rw [hbody, hlength, List.append_assoc]
    · simp only [List.forall_mem_append, List.forall_mem_cons, isSome_base64Value, true_and]
      exact ⟨fun c hc ↦ absurd hc List.not_mem_nil, hall⟩

/-- The encoding is the standard one. -/
theorem base64Encode_standard (src : List UInt8) :
    (base64Encode src).length = 4 * (src.length ⌈/⌉ 3) ∧ IsPadded src.length (base64Encode src) ∧
      base64Decode (base64Encode src) = some src := by
  rw [base64Encode_eq]
  exact ⟨length_standardForm src, isPadded_standardForm src, base64Decode_standardForm src⟩

end DxApi.Net
