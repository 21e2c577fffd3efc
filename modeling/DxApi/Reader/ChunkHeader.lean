import Mathlib.Data.List.Basic
import Mathlib.Data.List.Infix
import Mathlib.Algebra.Order.Ring.Nat
import Mathlib.Tactic.Ring

/-!
# HTTP chunk headers

The chunked transfer encoding as the reader accepts it: every chunk is a line break, one to seven
hexadecimal digits that give the length of its data, a line break and the data. `Chunk` is such a
chunk by construction. `parseChunkHeader` is the parser of the source, run on the bytes that happen
to be buffered: it gives the length of a complete header, and tells a header that may still become
complete from one that cannot. It bounds the value, not the number of digits, and does not look whether
there are digits at all.
-/

namespace DxApi.Reader

/-! ## The wire format -/

/-- The value of a hexadecimal digit of either case. -/
def digitValue (digit : UInt8) : Option ℕ :=
  if 0x30 ≤ digit ∧ digit ≤ 0x39 then some (digit.toNat - 0x30)
  else if 0x41 ≤ digit ∧ digit ≤ 0x46 then some (digit.toNat - 0x41 + 10)
  else if 0x61 ≤ digit ∧ digit ≤ 0x66 then some (digit.toNat - 0x61 + 10)
  else none

/-- The number that hexadecimal `digits` continue from `value`. -/
def numberFrom (value : ℕ) : List UInt8 → Option ℕ
  | [] => some value
  | digit :: digits => (digitValue digit).bind fun t ↦ numberFrom (value * 16 + t) digits

/-- A chunk of data, which may be empty, with the digits that announce it. -/
structure Chunk where
  digits : List UInt8
  data : List UInt8
  digits_ne_nil : digits ≠ []
  digits_length : digits.length ≤ 7
  digits_value : numberFrom 0 digits = some data.length

/-- Line break, digits, line break. -/
def Chunk.header (chunk : Chunk) : List UInt8 :=
  0x0D :: 0x0A :: (chunk.digits ++ [0x0D, 0x0A])

/-- The bytes a sequence of chunks is sent as. -/
def wireOf (chunks : List Chunk) : List UInt8 :=
  chunks.flatMap fun chunk ↦ chunk.header ++ chunk.data

/-- The bytes a sequence of chunks carries. -/
def payloadOf (chunks : List Chunk) : List UInt8 :=
  chunks.flatMap Chunk.data

@[simp]
theorem wireOf_nil : wireOf [] = [] := rfl

@[simp]
theorem wireOf_cons (chunk : Chunk) (chunks : List Chunk) :
    wireOf (chunk :: chunks) = chunk.header ++ (chunk.data ++ wireOf chunks) := by
  simp [wireOf]

@[simp]
theorem payloadOf_nil : payloadOf [] = [] := rfl

@[simp]
theorem payloadOf_cons (chunk : Chunk) (chunks : List Chunk) :
    payloadOf (chunk :: chunks) = chunk.data ++ payloadOf chunks := by
  simp [payloadOf]

theorem Chunk.length_header (chunk : Chunk) : chunk.header.length = chunk.digits.length + 4 := by
  simp [header]

theorem Chunk.header_length_bounds (chunk : Chunk) :
    5 ≤ chunk.header.length ∧ chunk.header.length ≤ 11 := by
  have hpos := List.length_pos_iff.mpr chunk.digits_ne_nil
  have hle := chunk.digits_length
  rw [chunk.length_header]
  omega

theorem length_payloadOf_le (chunks : List Chunk) :
    (payloadOf chunks).length ≤ (wireOf chunks).length := by
  induction chunks with
  | nil => simp
  | cons chunk chunks ih =>
    simp only [payloadOf_cons, wireOf_cons, List.length_append]
    omega

/-! ## The parser -/

/-- `CHUNK_SIZE_MAX`. -/
def chunkSizeMax : ℕ := 0xFFFFFFF

/-- The size that reports malformed input: `-1` read as unsigned. -/
def invalidChunkSize : ℕ := 0xFFFFFFFF

/-- The value of one character: unsigned differences, as the source compares them. -/
def hexDigit (p : UInt8) : Option ℕ :=
  let ch := p.toUInt32 - 0x30
  if ch < 10 then some ch.toNat
  else if ch - 0x11 < 6 then some (ch - 7).toNat
  else if ch - 0x31 < 6 then some (ch - 0x27).toNat
  else none

/-- The loop of `parseChunkHeader` over the bytes that are left, after `length` bytes. -/
def parseChunkSize : List UInt8 → ℕ → ℕ → Option ℕ × ℕ
  | [], _, x => (none, x)
  | p :: rest, length, x =>
    match hexDigit p with
    | some t =>
      let x := x * 16 % 2 ^ 32 + t
      if rest.isEmpty ∨ chunkSizeMax < x then (none, x) else parseChunkSize rest (length + 1) x
    | none =>
      if p ≠ 0x0D then (none, invalidChunkSize)
      else
        match rest with
        | [] => (none, x)
        | q :: _ => if q = 0x0A then (some (length + 2), x) else (none, invalidChunkSize)

/-- `parseChunkHeader` on the buffered bytes: the header's length when it is complete, and the size
of the chunk as far as it was read, as an unsigned number. -/
def parseChunkHeader (available : List UInt8) : Option ℕ × ℕ :=
  match available with
  | p :: q :: rest =>
    if available.length < 5 ∨ p ≠ 0x0D ∨ q ≠ 0x0A then (none, invalidChunkSize)
    else parseChunkSize rest 2 (2 ^ 31)
  | _ => (none, invalidChunkSize)

theorem hexDigit_eq_digitValue (p : UInt8) : hexDigit p = digitValue p := by
  have hp := p.toNat_lt
  simp only [hexDigit, digitValue, UInt32.lt_iff_toNat_lt, UInt8.le_iff_toNat_le,
    UInt32.toNat_sub, UInt8.toNat_toUInt32]
  split_ifs <;> simp_all <;> omega

theorem digitValue_lt {digit : UInt8} {t : ℕ} (h : digitValue digit = some t) : t < 16 := by
  simp only [digitValue, UInt8.le_iff_toNat_le] at h
  split_ifs at h <;> simp_all <;> omega

theorem parseChunkSize_digit {p : UInt8} {t : ℕ} (h : digitValue p = some t) (rest : List UInt8) (length x : ℕ) :
    parseChunkSize (p :: rest) length x =
      if rest.isEmpty ∨ chunkSizeMax < x * 16 % 2 ^ 32 + t then (none, x * 16 % 2 ^ 32 + t)
      else parseChunkSize rest (length + 1) (x * 16 % 2 ^ 32 + t) := by
  rw [parseChunkSize.eq_def]
  simp only [hexDigit_eq_digitValue, h]

/-- What is no digit has to be the line break. -/
theorem parseChunkSize_other {p : UInt8} (h : digitValue p = none) (rest : List UInt8) (length x : ℕ) :
    parseChunkSize (p :: rest) length x =
      if p ≠ 0x0D ∨ (∃ q, rest.head? = some q ∧ q ≠ 0x0A) then (none, invalidChunkSize)
      else if rest.isEmpty then (none, x) else (some (length + 2), x) := by
  rw [parseChunkSize.eq_def]
  simp only [hexDigit_eq_digitValue, h]
  by_cases hcr : p = 0x0D
  · cases rest with
    | nil => simp [hcr]
    | cons q rest => by_cases hlf : q = 0x0A <;> simp [hcr, hlf]
  · simp [hcr]

theorem le_of_numberFrom {digits : List UInt8} {value number : ℕ}
    (h : numberFrom value digits = some number) : value ≤ number := by
  induction digits generalizing value with
  | nil => exact (Option.some.inj h).le
  | cons digit digits ih =>
    obtain ⟨t, -, hrest⟩ := Option.bind_eq_some_iff.mp h
    have hle := ih hrest
    omega

theorem numberFrom_lt {digits : List UInt8} {value number : ℕ} (h : numberFrom value digits = some number) :
    number < (value + 1) * 16 ^ digits.length := by
  induction digits generalizing value with
  | nil =>
    rw [← Option.some.inj h, List.length_nil, pow_zero, mul_one]
    exact Nat.lt_succ_self value
  | cons digit digits ih =>
    obtain ⟨t, ht, hrest⟩ := Option.bind_eq_some_iff.mp h
    have hdigit := digitValue_lt ht
    calc number
        < (value * 16 + t + 1) * 16 ^ digits.length := ih hrest
      _ ≤ (value + 1) * 16 * 16 ^ digits.length := Nat.mul_le_mul_right _ (by omega)
      _ = (value + 1) * 16 ^ (digits.length + 1) := by ring

/-- The value that announces the length of the data takes no more than 28 bits. -/
theorem Chunk.data_length_le (chunk : Chunk) : chunk.data.length ≤ chunkSizeMax := by
  have hlt := numberFrom_lt chunk.digits_value
  have hpow : 16 ^ chunk.digits.length ≤ 16 ^ 7 := Nat.pow_le_pow_right (by decide) chunk.digits_length
  rw [zero_add, one_mul] at hlt
  exact Nat.le_of_lt_succ (hlt.trans_le hpow)

/-- A number that has not become too big has not wrapped around either. -/
theorem step_eq {value t : ℕ} (hvalue : value ≤ chunkSizeMax) : value * 16 % 2 ^ 32 + t = value * 16 + t := by
  unfold chunkSizeMax at hvalue
  rw [Nat.mod_eq_of_lt (by omega)]

theorem parseChunkSize_complete {digits : List UInt8} {value number : ℕ} (length : ℕ)
    (hnumber : numberFrom value digits = some number) (hmax : number ≤ chunkSizeMax) (tail : List UInt8) :
    parseChunkSize (digits ++ 0x0D :: 0x0A :: tail) length value =
      (some (length + digits.length + 2), number) := by
  induction digits generalizing value length with
  | nil =>
    have hcr : digitValue 0x0D = none := by decide
    obtain rfl : value = number := Option.some.inj hnumber
    simp [parseChunkSize_other hcr]
  | cons digit digits ih =>
    have hvalue := (le_of_numberFrom hnumber).trans hmax
    obtain ⟨t, ht, hrest⟩ := Option.bind_eq_some_iff.mp hnumber
    have hnext := (le_of_numberFrom hrest).trans hmax
    rw [List.cons_append, parseChunkSize_digit ht, step_eq hvalue, if_neg (by simpa using hnext),
      ih (length + 1) hrest, List.length_cons]
    congr 2
    omega

/-- A header cut off anywhere is reported as incomplete, with an acceptable size. -/
theorem parseChunkSize_incomplete {digits available : List UInt8} {value number : ℕ} (length : ℕ)
    (hnumber : numberFrom value digits = some number) (hmax : number ≤ chunkSizeMax)
    (hpre : available <+: digits ++ [0x0D, 0x0A]) (hshort : available.length < digits.length + 2) :
    ∃ x ≤ chunkSizeMax, parseChunkSize available length value = (none, x) := by
  have hvalue := (le_of_numberFrom hnumber).trans hmax
  induction digits generalizing value length available with
  | nil =>
    have hcr : digitValue 0x0D = none := by decide
    rcases available with _ | ⟨p, _ | ⟨q, available⟩⟩
    · exact ⟨value, hvalue, rfl⟩
    · obtain rfl : p = 0x0D := by simpa using hpre
      exact ⟨value, hvalue, by simp [parseChunkSize_other hcr]⟩
    · simp only [List.length_cons, List.length_nil] at hshort
      omega
  | cons digit digits ih =>
    obtain ⟨t, ht, hrest⟩ := Option.bind_eq_some_iff.mp hnumber
    have hnext := (le_of_numberFrom hrest).trans hmax
    rw [List.length_cons] at hshort
    rcases available with _ | ⟨p, available⟩
    · exact ⟨value, hvalue, rfl⟩
    · rw [List.cons_append, List.cons_prefix_cons] at hpre
      obtain ⟨rfl, htail⟩ := hpre
      rw [parseChunkSize_digit ht, step_eq hvalue]
      by_cases hlast : available.isEmpty ∨ chunkSizeMax < value * 16 + t
      · exact ⟨_, hnext, by rw [if_pos hlast]⟩
      · rw [if_neg hlast]
        rw [List.length_cons] at hshort
        exact ih (length + 1) hrest htail (by omega) hnext

/-- What neither is nor becomes a header is reported with a size that is too big. -/
theorem parseChunkSize_malformed {available : List UInt8} {value : ℕ} (length : ℕ)
    (hvalue : value ≤ chunkSizeMax)
    (hnone : ∀ digits number, numberFrom value digits = some number → number ≤ chunkSizeMax →
      ¬ digits ++ [0x0D, 0x0A] <+: available ∧ ¬ available <+: digits ++ [0x0D, 0x0A]) :
    ∃ x > chunkSizeMax, parseChunkSize available length value = (none, x) := by
  induction available generalizing value length with
  | nil => exact absurd List.nil_prefix (hnone [] value rfl hvalue).2
  | cons p rest ih =>
    cases hdigit : digitValue p with
    | none =>
      have hline := hnone [] value rfl hvalue
      refine ⟨invalidChunkSize, by decide, ?_⟩
      rw [parseChunkSize_other hdigit, if_pos]
      by_cases hcr : p = 0x0D
      · subst hcr
        rcases rest with _ | ⟨q, rest⟩
        · exact absurd (List.prefix_append [0x0D] [0x0A]) hline.2
        · refine .inr ⟨q, rfl, ?_⟩
          rintro rfl
          exact hline.1 (List.prefix_append [0x0D, 0x0A] rest)
      · exact .inl hcr
    | some t =>
      rw [parseChunkSize_digit hdigit, step_eq hvalue]
      have hfrom : ∀ digits, numberFrom value (p :: digits) = numberFrom (value * 16 + t) digits := by
        intro digits
        rw [numberFrom, hdigit, Option.bind_some]
      by_cases hbig : chunkSizeMax < value * 16 + t
      · exact ⟨_, hbig, by rw [if_pos (.inr hbig)]⟩
      · rw [not_lt] at hbig
        have hmore : ¬ rest.isEmpty := by
          rw [List.isEmpty_iff]
          rintro rfl
          exact (hnone [p] _ (by rw [hfrom, numberFrom]) hbig).2 (List.prefix_append [p] [0x0D, 0x0A])
        rw [if_neg (by simp [hmore, hbig])]
        refine ih (length + 1) hbig fun digits number hnumber hmax ↦ ?_
        have hboth := hnone (p :: digits) number ((hfrom digits).trans hnumber) hmax
        simpa only [List.cons_append, List.cons_prefix_cons, true_and] using hboth

/-- `header` is a chunk header: a line break, hexadecimal digits of either case that make up `value`, and
a line break. -/
def IsHeader (header : List UInt8) (value : ℕ) : Prop :=
  ∃ digits, digits ≠ [] ∧ header = 0x0D :: 0x0A :: (digits ++ [0x0D, 0x0A]) ∧
    numberFrom 0 digits = some value ∧ value ≤ chunkSizeMax

theorem Chunk.isHeader (chunk : Chunk) : IsHeader chunk.header chunk.data.length :=
  ⟨chunk.digits, chunk.digits_ne_nil, rfl, chunk.digits_value, chunk.data_length_le⟩

/-- The first digit is added to nothing: the marker is shifted out. -/
theorem parseChunkHeader_digit {digit : UInt8} {t : ℕ} (rest : List UInt8) (ht : digitValue digit = some t)
    (hrest : 2 ≤ rest.length) :
    parseChunkHeader (0x0D :: 0x0A :: digit :: rest) = parseChunkSize rest 3 t := by
  have hdigit := digitValue_lt ht
  have hmarker : 2 ^ 31 * 16 % 2 ^ 32 + t = t := by omega
  have hne : rest ≠ [] := List.ne_nil_of_length_pos (by omega)
  rw [parseChunkHeader, if_neg (by simp; omega), parseChunkSize_digit ht, hmarker, if_neg]
  unfold chunkSizeMax
  simp [hne]
  omega

theorem IsHeader.parse_complete {header : List UInt8} {value : ℕ} (h : IsHeader header value)
    (tail : List UInt8) : parseChunkHeader (header ++ tail) = (some header.length, value) := by
  obtain ⟨digits, hne, rfl, hvalue, hmax⟩ := h
  obtain ⟨digit, digits, rfl⟩ := List.exists_cons_of_ne_nil hne
  obtain ⟨t, ht, hrest⟩ := Option.bind_eq_some_iff.mp hvalue
  have hparse := parseChunkSize_complete 3 hrest (by simpa using hmax) tail
  simp only [zero_mul, zero_add] at hparse
  have hlist : 0x0D :: 0x0A :: (digit :: digits ++ [0x0D, 0x0A]) ++ tail =
      0x0D :: 0x0A :: digit :: (digits ++ 0x0D :: 0x0A :: tail) := by simp
  rw [hlist, parseChunkHeader_digit _ ht (by simp; omega), hparse]
  simp
  omega

theorem IsHeader.parse_incomplete {header available : List UInt8} {value : ℕ} (h : IsHeader header value)
    (hpre : available <+: header) (hmin : 5 ≤ available.length) (hshort : available.length < header.length) :
    ∃ x ≤ chunkSizeMax, parseChunkHeader available = (none, x) := by
  obtain ⟨digits, hne, rfl, hvalue, hmax⟩ := h
  obtain ⟨digit, digits, rfl⟩ := List.exists_cons_of_ne_nil hne
  obtain ⟨t, ht, hrest⟩ := Option.bind_eq_some_iff.mp hvalue
  rcases available with _ | ⟨p, _ | ⟨q, _ | ⟨d, available⟩⟩⟩
  · simp at hmin
  · simp at hmin
  · simp at hmin
  obtain ⟨rfl, rfl, rfl, htail⟩ : p = 0x0D ∧ q = 0x0A ∧ d = digit ∧ available <+: digits ++ [0x0D, 0x0A] := by
    simpa [List.cons_prefix_cons] using hpre
  simp only [List.length_cons, List.length_append] at hmin hshort
  rw [parseChunkHeader_digit _ ht (by omega)]
  rw [zero_mul, zero_add] at hrest
  exact parseChunkSize_incomplete 3 hrest hmax htail (by simp at hshort; omega)

/-- Without a digit between them two line breaks are taken for a header. -/
theorem parseChunkHeader_noDigit {rest : List UInt8} (hrest : rest ≠ []) :
    parseChunkHeader (0x0D :: 0x0A :: 0x0D :: 0x0A :: rest) = (some 4, 2 ^ 31) := by
  have hcr : digitValue 0x0D = none := by decide
  have hlength := List.length_pos_iff.mpr hrest
  rw [parseChunkHeader, if_neg (by simp; omega), parseChunkSize_other hcr]
  simp

theorem parseChunkHeader_malformed {available : List UInt8} (hmin : 5 ≤ available.length)
    (hdigits : ¬ [0x0D, 0x0A, 0x0D, 0x0A] <+: available)
    (hnone : ∀ header value, IsHeader header value → ¬ header <+: available ∧ ¬ available <+: header) :
    ∃ x > chunkSizeMax, parseChunkHeader available = (none, x) := by
  rcases available with _ | ⟨p, _ | ⟨q, _ | ⟨digit, rest⟩⟩⟩
  · simp at hmin
  · simp at hmin
  · simp at hmin
  by_cases hline : p = 0x0D ∧ q = 0x0A
  · obtain ⟨rfl, rfl⟩ := hline
    simp only [List.length_cons] at hmin
    cases hdigit : digitValue digit with
    | none =>
      refine ⟨invalidChunkSize, by decide, ?_⟩
      rw [parseChunkHeader, if_neg (by simp; omega), parseChunkSize_other hdigit, if_pos]
      by_cases hcr : digit = 0x0D
      · subst hcr
        rcases rest with _ | ⟨q, rest⟩
        · simp at hmin
        · refine .inr ⟨q, rfl, ?_⟩
          rintro rfl
          exact hdigits ⟨rest, rfl⟩
      · exact .inl hcr
    | some t =>
      have ht := digitValue_lt hdigit
      rw [parseChunkHeader_digit _ hdigit (by omega)]
      refine parseChunkSize_malformed 3 (by unfold chunkSizeMax; omega) fun digits number hnumber hmax ↦ ?_
      have hvalue : numberFrom 0 (digit :: digits) = some number := by
        rw [numberFrom, hdigit, Option.bind_some, zero_mul, zero_add, hnumber]
      have hboth := hnone _ _ ⟨digit :: digits, List.cons_ne_nil _ _, rfl, hvalue, hmax⟩
      simpa only [List.cons_append, List.cons_prefix_cons, true_and] using hboth
  · refine ⟨invalidChunkSize, by decide, ?_⟩
    rw [parseChunkHeader, if_pos]
    by_cases hp : p = 0x0D
    · exact .inr (.inr fun hq ↦ hline ⟨hp, hq⟩)
    · exact .inr (.inl hp)

/-! ## Exactness -/

/-- The bytes are a part of a header, with more of it to come. -/
def IsIncomplete (available : List UInt8) : Prop :=
  ∃ header value, IsHeader header value ∧ available <+: header ∧ available ≠ header

/-- A position is returned for a header at the start of the bytes, the one after it, and its value with
it; none and an acceptable size for a part of a header; none and a size that is too big for all else. -/
structure ParsedExactly (available : List UInt8) : Prop where
  complete : ∀ length x, parseChunkHeader available = (some length, x) ↔
    ∃ header, IsHeader header x ∧ header <+: available ∧ length = header.length
  incomplete : (∃ x ≤ chunkSizeMax, parseChunkHeader available = (none, x)) ↔ IsIncomplete available
  malformed : (∃ x > chunkSizeMax, parseChunkHeader available = (none, x)) ↔
    ¬ (∃ header value, IsHeader header value ∧ header <+: available) ∧ ¬ IsIncomplete available

/-- The parser is exact on all bytes but those that start with two line breaks. -/
theorem parsedExactly_iff {available : List UInt8} (hmin : 5 ≤ available.length) :
    ParsedExactly available ↔ ¬ [0x0D, 0x0A, 0x0D, 0x0A] <+: available := by
  constructor
  · rintro hexact ⟨rest, rfl⟩
    have hrest : rest ≠ [] := by
      rintro rfl
      simp at hmin
    obtain ⟨header, ⟨-, -, -, -, hmax⟩, -⟩ := (hexact.complete 4 (2 ^ 31)).mp (parseChunkHeader_noDigit hrest)
    exact absurd hmax (by decide)
  · intro hdigits
    have hincomplete : IsIncomplete available → ∃ x ≤ chunkSizeMax, parseChunkHeader available = (none, x) := by
      rintro ⟨header, value, hheader, hpre, hne⟩
      have hlength : available.length < header.length :=
        lt_of_le_of_ne hpre.length_le fun hsame ↦ hne (hpre.eq_of_length hsame)
      exact hheader.parse_incomplete hpre hmin hlength
    have hmalformed : ¬ (∃ header value, IsHeader header value ∧ header <+: available) →
        ¬ IsIncomplete available → ∃ x > chunkSizeMax, parseChunkHeader available = (none, x) := by
      intro hcomplete hpart
      refine parseChunkHeader_malformed hmin hdigits fun header value hheader ↦ ?_
      refine ⟨fun hpre ↦ hcomplete ⟨header, value, hheader, hpre⟩, fun hpre ↦ ?_⟩
      by_cases hsame : available = header
      · exact hcomplete ⟨header, value, hheader, hsame ▸ List.prefix_rfl⟩
      · exact hpart ⟨header, value, hheader, hpre, hsame⟩
    have hparsed : ∀ header value, IsHeader header value → header <+: available →
        parseChunkHeader available = (some header.length, value) := by
      rintro header value hheader ⟨tail, rfl⟩
      exact hheader.parse_complete tail
    refine ⟨fun length x ↦ ⟨fun hparse ↦ ?_, ?_⟩, ⟨?_, hincomplete⟩, ⟨?_, fun hneither ↦ ?_⟩⟩
    · by_cases hcomplete : ∃ header value, IsHeader header value ∧ header <+: available
      · obtain ⟨header, value, hheader, hpre⟩ := hcomplete
        obtain ⟨rfl, rfl⟩ : header.length = length ∧ value = x := by
          simpa [hparse] using (hparsed header value hheader hpre).symm
        exact ⟨header, hheader, hpre, rfl⟩
      · obtain ⟨y, hnone⟩ : ∃ y, parseChunkHeader available = (none, y) := by
          by_cases hpart : IsIncomplete available
          · exact (hincomplete hpart).imp fun _ ↦ And.right
          · exact (hmalformed hcomplete hpart).imp fun _ ↦ And.right
        rw [hnone] at hparse
        cases hparse
    · rintro ⟨header, hheader, hpre, rfl⟩
      exact hparsed header x hheader hpre
    · rintro ⟨x, hx, hparse⟩
      by_contra hpart
      by_cases hcomplete : ∃ header value, IsHeader header value ∧ header <+: available
      · obtain ⟨header, value, hheader, hpre⟩ := hcomplete
        rw [hparsed header value hheader hpre] at hparse
        cases hparse
      · obtain ⟨y, hy, hbig⟩ := hmalformed hcomplete hpart
        rw [hbig, Prod.mk.injEq] at hparse
        omega
    · rintro ⟨x, hx, hparse⟩
      constructor
      · rintro ⟨header, value, hheader, hpre⟩
        rw [hparsed header value hheader hpre] at hparse
        cases hparse
      · intro hpart
        obtain ⟨y, hy, hsmall⟩ := hincomplete hpart
        rw [hsmall, Prod.mk.injEq] at hparse
        omega
    · exact hmalformed hneither.1 hneither.2

theorem parsedExactly_short :
    5 ≤ ([0x0D, 0x0A, 0x31, 0x61, 0x0D] : List UInt8).length ∧
      (ParsedExactly [0x0D, 0x0A, 0x31, 0x61, 0x0D] ↔
        ¬ [0x0D, 0x0A, 0x0D, 0x0A] <+: ([0x0D, 0x0A, 0x31, 0x61, 0x0D] : List UInt8)) :=
  ⟨by decide, parsedExactly_iff (by decide)⟩

/-- Behind two line breaks a size of 2 to the 31 is taken. -/
theorem parsed_without_digits : ¬ ∀ available : List UInt8, 5 ≤ available.length → ParsedExactly available := by
  intro hall
  have hexact := hall [0x0D, 0x0A, 0x0D, 0x0A, 0x30] (by decide)
  obtain ⟨header, ⟨-, -, -, -, hmax⟩, -⟩ := (hexact.complete 4 (2 ^ 31)).mp (by decide)
  exact absurd hmax (by decide)

/-! ## Uniqueness -/

/-- What a wire carries does not depend on how it is read as chunks. -/
theorem payloadOf_eq_of_wireOf_eq {first second : List Chunk} (h : wireOf first = wireOf second) :
    payloadOf first = payloadOf second := by
  induction first generalizing second with
  | nil =>
    cases second with
    | nil => rfl
    | cons chunk chunks => simp [Chunk.header] at h
  | cons chunk chunks ih =>
    cases second with
    | nil => simp [Chunk.header] at h
    | cons chunk' chunks' =>
      have hparse := chunk.isHeader.parse_complete (chunk.data ++ wireOf chunks)
      have hparse' := chunk'.isHeader.parse_complete (chunk'.data ++ wireOf chunks')
      rw [← wireOf_cons, h, wireOf_cons, hparse', Prod.mk.injEq, Option.some.injEq] at hparse
      rw [wireOf_cons, wireOf_cons] at h
      obtain ⟨-, h⟩ := List.append_inj h hparse.1.symm
      obtain ⟨hdata, h⟩ := List.append_inj h hparse.2.symm
      rw [payloadOf_cons, payloadOf_cons, hdata, ih h]

end DxApi.Reader
