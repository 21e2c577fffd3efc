import DxApi.Reader.AlphanumericStrings
import DxApi.Reader.Containers

/-!
# Skipping a field and reading it

Every kind of field is passed over by two calls that were written apart: one reads it, the other skips
it. Both are followed from the same place of a message. Where the read returns, so does the skip, and
it has passed over as many bytes and left the reader inside the same containers.
-/

namespace DxApi.Reader

open Exec ByteMemory ByteOrder Writer

/-! ## Passing over -/

/-- `r'` is `r` when `count` of the bytes ahead are behind, all of them content. -/
structure Passed (cls : ReaderClass) (r r' : DataReader) (rest : List UInt8) (left : ℤ) (count : ℕ) : Prop where
  took : Took cls r r' (rest.drop count) (left - count)
  within : Within cls rest left count

/-- When the program returns, it has passed over some bytes, and its value is one of `range`. -/
def Passes {α : Type} (cls : ReaderClass) (range : α → Prop) (program : ReaderM α) : Prop :=
  ∀ r rest left, Ready cls r r.dataPtr rest left → Roomy r →
    wp program (fun found r' ↦ range found ∧ ∃ count, Passed cls r r' rest left count) (fun _ _ ↦ True) r

/-- When the program returns, it has passed over `count` bytes. -/
def PassesOver {α : Type} (cls : ReaderClass) (count : ℕ) (program : ReaderM α) : Prop :=
  ∀ r rest left, Ready cls r r.dataPtr rest left → Roomy r →
    wp program (fun _ r' ↦ Passed cls r r' rest left count) (fun _ _ ↦ True) r

/-- Where `read` returns, `skip` does, and both have passed over the same bytes. -/
def SkipsLike {α : Type} (cls : ReaderClass) (read : ReaderM α) (skip : ReaderM Unit) : Prop :=
  ∀ r rest left, Ready cls r r.dataPtr rest left → Roomy r →
    wp read
      (fun _ r' ↦ wp skip
        (fun _ r'' ↦ ∃ count, Passed cls r r' rest left count ∧ Passed cls r r'' rest left count)
        (fun _ _ ↦ False) r)
      (fun _ _ ↦ True) r

section

variable {α β : Type} {cls : ReaderClass} {r r' : DataReader} {rest : List UInt8} {left : ℤ} {count : ℕ}
  {range : α → Prop} {program : ReaderM α} {read : ReaderM β} {skipping : ReaderM Unit}

theorem Passed.refl (h : Ready cls r r.dataPtr rest left) : Passed cls r r rest left 0 := by
  constructor
  · rw [List.drop_zero, Nat.cast_zero, Int.sub_zero]
    exact .refl h
  · rw [within_iff]
    exact ⟨by omega, fun hmsg ↦ (h.contentEnd_eq hmsg).2.1⟩

theorem Passed.trans {r'' : DataReader} {count' : ℕ} (h : Passed cls r r' rest left count)
    (h' : Passed cls r' r'' (rest.drop count) (left - count) count') :
    Passed cls r r'' rest left (count + count') := by
  obtain ⟨htook, hwithin⟩ := h
  obtain ⟨htook', hwithin'⟩ := h'
  rw [within_iff] at hwithin hwithin'
  rw [List.length_drop] at hwithin'
  constructor
  · have hsum : left - count - count' = left - (count + count' : ℕ) := by omega
    rw [List.drop_drop, hsum] at htook'
    exact htook.trans htook'
  · rw [within_iff]
    refine ⟨by omega, fun hmsg ↦ ?_⟩
    have hleft := hwithin'.2 hmsg
    omega

theorem Passed.roomy (h : Passed cls r r' rest left count) (hroomy : Roomy r) : Roomy r' :=
  h.took.moved.roomy.mpr hroomy

/-! ## The rules -/

theorem passes_pure {value : α} (h : range value) : Passes cls range (pure value) :=
  fun _ _ _ hready _ ↦ wp_pure.mpr ⟨h, 0, .refl hready⟩

theorem PassesOver.passes (h : PassesOver cls count program) : Passes cls (fun _ ↦ True) program := by
  intro r rest left hready hroomy
  apply wp_mono (h r rest left hready hroomy)
  · exact fun _ _ hpassed ↦ ⟨trivial, count, hpassed⟩
  · exact fun _ _ _ ↦ trivial

theorem Passes.bind {range' : β → Prop} {next : α → ReaderM β} (h : Passes cls range program)
    (hnext : ∀ value, range value → Passes cls range' (next value)) : Passes cls range' (program >>= next) := by
  intro r rest left hready hroomy
  apply wp_call (h r rest left hready hroomy)
  · intro value r₁ h₁
    obtain ⟨hvalue, count, hpassed⟩ := h₁
    apply wp_mono (hnext value hvalue r₁ _ _ hpassed.took.ready (hpassed.roomy hroomy))
    · intro _ _ h₂
      obtain ⟨hrange, count', hpassed'⟩ := h₂
      exact ⟨hrange, _, hpassed.trans hpassed'⟩
    · exact fun _ _ ↦ id
  · exact fun _ _ ↦ id

theorem Passes.map (h : Passes cls range program) (f : α → β) :
    Passes cls (fun _ ↦ True) (do return f (← program)) :=
  h.bind fun _ _ ↦ passes_pure trivial

theorem PassesOver.map (h : PassesOver cls count program) (f : α → β) :
    PassesOver cls count (do return f (← program)) := by
  intro r rest left hready hroomy
  apply wp_call (h r rest left hready hroomy)
  · exact fun _ _ hpassed ↦ wp_pure.mpr hpassed
  · exact fun _ _ ↦ id

/-- A skip needs nothing but the bytes. -/
theorem SkipsLike.of_passesOver (h : PassesOver cls count program) : SkipsLike cls program (skip cls count) := by
  intro r rest left hready hroomy
  apply wp_mono (h r rest left hready hroomy)
  · intro _ _ hpassed
    apply wp_mono (skip_spec hready hroomy.hasBuffer)
    · exact fun _ _ h' ↦ ⟨count, hpassed, ⟨h'.1, h'.2.1⟩, h'.2.2⟩
    · intro _ _ h'
      rcases h' with hexceeds | hsmall
      · exact hpassed.within hexceeds
      · exact hsmall (hroomy.hasRoom_skip _)
  · exact fun _ _ ↦ id

theorem skipsLike_pure (value : α) : SkipsLike cls (pure value : ReaderM α) (pure ()) :=
  fun _ _ _ hready _ ↦ wp_pure.mpr (wp_pure.mpr ⟨0, .refl hready, .refl hready⟩)

/-- Nothing is passed over by either. -/
theorem skipsLike_skip_zero (value : α) : SkipsLike cls (pure value : ReaderM α) (skip cls (0 : ℕ)) :=
  .of_passesOver fun _ _ _ hready _ ↦ wp_pure.mpr (.refl hready)

theorem skipsLike_throw (error : ReadError) : SkipsLike cls (throw error : ReaderM α) skipping :=
  fun _ _ _ _ _ ↦ wp_throw.mpr trivial

/-- Both begin with the same program, which finds the same in both. -/
theorem Passes.skipsLike_bind {next : α → ReaderM β} {skipNext : α → ReaderM Unit} (h : Passes cls range program)
    (hnext : ∀ value, range value → SkipsLike cls (next value) (skipNext value)) :
    SkipsLike cls (program >>= next) (program >>= skipNext) := by
  intro r rest left hready hroomy
  have hfirst := h r rest left hready hroomy
  cases hrun : program r with
  | error error r₁ =>
    rw [wp_bind, wp_error hrun]
    trivial
  | ok value r₁ =>
    rw [wp_ok hrun] at hfirst
    obtain ⟨hvalue, count, hpassed⟩ := hfirst
    simp only [wp_bind, wp_ok hrun]
    apply wp_mono (hnext value hvalue r₁ _ _ hpassed.took.ready (hpassed.roomy hroomy))
    · intro _ _ h₂
      apply wp_mono h₂
      · intro _ _ h₃
        obtain ⟨count', hread, hskip⟩ := h₃
        exact ⟨_, hpassed.trans hread, hpassed.trans hskip⟩
      · exact fun _ _ ↦ id
    · exact fun _ _ ↦ id

theorem SkipsLike.map (h : SkipsLike cls read skipping) (f : β → α) :
    SkipsLike cls (do return f (← read)) skipping := by
  intro r rest left hready hroomy
  apply wp_call (h r rest left hready hroomy)
  · exact fun _ _ h' ↦ wp_pure.mpr h'
  · exact fun _ _ ↦ id

/-- At the end of the content neither moves. The program that reads may ask once more. -/
theorem SkipsLike.unlessEnd_left {null : β} (h : SkipsLike cls read (unlessEnd () skipping)) :
    SkipsLike cls (unlessEnd null read) (unlessEnd () skipping) := by
  intro r rest left hready hroomy
  rw [wp_unlessEnd]
  refine ⟨fun hend ↦ wp_atEnd hend ⟨0, .refl hready, .refl hready⟩, ?_⟩
  exact fun _ ↦ h r rest left hready hroomy

theorem SkipsLike.unlessEnd {null : β} (h : SkipsLike cls read skipping) :
    SkipsLike cls (unlessEnd null read) (Reader.unlessEnd () skipping) := by
  intro r rest left hready hroomy
  rw [wp_unlessEnd]
  refine ⟨fun hend ↦ wp_atEnd hend ⟨0, .refl hready, .refl hready⟩, ?_⟩
  intro hmore
  apply wp_mono (h r rest left hready hroomy)
  · exact fun _ _ hskip ↦ wp_beforeEnd hmore hskip
  · exact fun _ _ ↦ id

/-- A read that does not ask finds nothing at the end of the content. -/
theorem SkipsLike.of_load {next : ℕ → ReaderM β} {size : ℕ} (hsize : size ≤ 0x200) (hpositive : 0 < size)
    (hmsg : cls.isMsg) (h : SkipsLike cls (loadBE cls size >>= next) skipping) :
    SkipsLike cls (loadBE cls size >>= next) (Reader.unlessEnd () skipping) := by
  intro r rest left hready hroomy
  by_cases hend : r.dataPtr = r.contentEnd
  · have hnone := (hready.contentEnd_eq hmsg).1
    apply wp_call (loadBE_spec hsize hready hroomy)
    · intro _ _ h'
      have hwithin := (within_iff.mp h'.2.2).2 hmsg
      omega
    · exact fun _ _ _ ↦ trivial
  · apply wp_mono (h r rest left hready hroomy)
    · exact fun _ _ hskip ↦ wp_beforeEnd hend hskip
    · exact fun _ _ ↦ id

end

/-! ## The loads -/

section

variable {cls : ReaderClass} {n : ℕ}

theorem passesOver_loadBE (hn : n ≤ 0x200) : PassesOver cls n (loadBE cls n) := by
  intro r rest left hready hroomy
  apply wp_mono (loadBE_spec hn hready hroomy)
  · exact fun _ _ h' ↦ ⟨h'.2.1, h'.2.2⟩
  · exact fun _ _ _ ↦ trivial

theorem passesOver_loadLE (hn : n ≤ 0x200) : PassesOver cls n (loadLE cls n) := by
  intro r rest left hready hroomy
  apply wp_mono (loadLE_spec hn hready hroomy)
  · exact fun _ _ h' ↦ ⟨h'.2.1, h'.2.2⟩
  · exact fun _ _ _ ↦ trivial

theorem passesOver_getBytes : PassesOver cls n (getBytes cls n) := by
  intro r rest left hready hroomy
  apply wp_mono (getBytes_spec hready hroomy.hasBuffer)
  · exact fun _ _ h' ↦ ⟨⟨h'.1, h'.2.1⟩, h'.2.2.2⟩
  · exact fun _ _ _ ↦ trivial

/-- Contiguous bytes, whatever is made of them. -/
theorem passesOver_bytes {α : Type} {value : ℤ → DataReader → α} :
    PassesOver cls n (do let p ← bytes cls n; let r ← get; return value p r) := by
  intro r rest left hready hroomy
  apply wp_call (bytes_spec hready hroomy.hasBuffer)
  · intro p r' h'
    rw [wp_bind, wp_get, wp_pure]
    exact ⟨⟨h'.1, h'.2.1⟩, h'.2.2.2⟩
  · exact fun _ _ _ ↦ trivial

/-- Bytes that are looked at stay ahead. -/
theorem passes_peek {α : Type} {value : ℤ → DataReader → α} :
    Passes cls (fun _ ↦ True) (do let p ← peek cls n; let r ← get; return value p r) := by
  intro r rest left hready hroomy
  apply wp_call (peek_spec hready hroomy.hasBuffer)
  · intro p r' h'
    rw [wp_bind, wp_get, wp_pure]
    have hpassed : Passed cls r' r' rest left 0 := .refl h'.2.1
    exact ⟨trivial, 0, ⟨h'.1.trans hpassed.took.moved, hpassed.took.ready⟩, hpassed.within⟩
  · exact fun _ _ _ ↦ trivial

theorem passes_getByte : Passes cls (fun value ↦ value < 0x100) (getByte cls) := by
  intro r rest left hready hroomy
  apply wp_mono (wp_and (getByte_lt cls r) (passesOver_loadBE (by decide) r rest left hready hroomy))
  · exact fun _ _ h' ↦ ⟨h'.1, 1, h'.2⟩
  · exact fun _ _ _ ↦ trivial

theorem passes_getPackedUInt (size : ℕ) : Passes cls (fun _ ↦ True) (getPackedUInt cls size) := by
  apply passes_getByte.bind
  intro header hheader
  have hcount : header / (0x100 / size) ≤ 0x200 := (Nat.div_le_self _ _).trans (by omega)
  exact (passesOver_loadLE hcount).passes.map _

theorem passes_getPackedUInt22 : Passes cls (fun _ ↦ True) (getPackedUInt22 cls) := by
  rw [getPackedUInt22_eq]
  apply passes_getByte.bind
  intro header hheader
  rw [getPackedUInt22Of]
  split
  · exact passes_pure trivial
  · exact (passesOver_loadLE (by omega)).passes.map _

end

/-! ## The kinds of fields -/

section

variable {cls : ReaderClass}

theorem skipsLike_loadBE {size : ℕ} (hsize : size ≤ 0x200) {null : ℕ} :
    SkipsLike cls (unlessEnd null (loadBE cls size)) (skipBytes cls size) :=
  (SkipsLike.of_passesOver (passesOver_loadBE hsize)).unlessEnd

theorem skipsLike_loadSigned {size : ℕ} (hsize : size ≤ 0x200) {null : ℤ} :
    SkipsLike cls (unlessEnd null (loadSigned cls size)) (skipBytes cls size) :=
  ((SkipsLike.of_passesOver (passesOver_loadBE hsize)).map _).unlessEnd

/-- A nullable type is passed over as the same type without null. -/
theorem SkipsLike.nullable {α : Type} {isNull : α → Prop} [DecidablePred isNull] {read : ReaderM α}
    {skipping : ReaderM Unit} (h : SkipsLike cls read skipping) :
    SkipsLike cls (Reader.nullable isNull read) (Reader.unlessEnd () skipping) :=
  (h.map _).unlessEnd

theorem SkipsLike.nullable_left {α : Type} {isNull : α → Prop} [DecidablePred isNull] {read : ReaderM α}
    {skipping : ReaderM Unit} (h : SkipsLike cls read (Reader.unlessEnd () skipping)) :
    SkipsLike cls (Reader.nullable isNull read) (Reader.unlessEnd () skipping) :=
  (h.map _).unlessEnd_left

theorem skipsLike_nullableSigned {size : ℕ} (hsize : size ≤ 0x200) {isNull : ℤ → Prop} [DecidablePred isNull] :
    SkipsLike cls (nullable isNull (loadSigned cls size)) (skipBytes cls size) :=
  ((SkipsLike.of_passesOver (passesOver_loadBE hsize)).map _).nullable

theorem skipsLike_nullableBE {size : ℕ} (hsize : size ≤ 0x200) {isNull : ℕ → Prop} [DecidablePred isNull] :
    SkipsLike cls (nullable isNull (loadBE cls size)) (skipBytes cls size) :=
  (SkipsLike.of_passesOver (passesOver_loadBE hsize)).nullable

theorem skipsLike_readPUInt (size null : ℕ) : SkipsLike cls (readPUInt size null cls) (skipPUInt size cls) := by
  apply SkipsLike.unlessEnd
  apply SkipsLike.map
  apply passes_getByte.skipsLike_bind
  intro header hheader
  have hcount : header / (0x100 / size) ≤ 0x200 := (Nat.div_le_self _ _).trans (by omega)
  exact (SkipsLike.of_passesOver (passesOver_loadLE hcount)).map _

theorem skipsLike_readInterval : SkipsLike cls (readInterval cls) (skipInterval cls) := by
  apply SkipsLike.unlessEnd
  apply passes_getByte.skipsLike_bind
  intro header hheader
  have hscale : header / 0x40 = 0 ∨ header / 0x40 = 1 ∨ header / 0x40 = 2 ∨ header / 0x40 = 3 := by omega
  rcases hscale with hscale | hscale | hscale | hscale
  · rw [hscale]
    exact skipsLike_skip_zero _
  · rw [hscale]
    exact skipsLike_skip_zero _
  · rw [hscale]
    exact skipsLike_skip_zero _
  · rw [hscale]
    exact .of_passesOver (passesOver_loadBE (by decide))

/-- What follows the header of a time. A granularity of five is null when no bit is below it. -/
theorem skipsLike_getTimeOf (n : ℕ) {header : ℕ} (hheader : header < 0x100) :
    SkipsLike cls (getTimeOf cls n (header % 0x20) (header / 0x20))
      (do
        skip cls (compressedTimestampSize (header / 0x20))
        if header / 0x20 = 0 ∨ (header / 0x20 = 5 ∧ header ≠ 0xA0) then
          throw .invalidTimestamp) := by
  have hskip (hvalid : ¬ (header / 0x20 = 0 ∨ (header / 0x20 = 5 ∧ header ≠ 0xA0))) :
      (do
        skip cls (compressedTimestampSize (header / 0x20))
        if header / 0x20 = 0 ∨ (header / 0x20 = 5 ∧ header ≠ 0xA0) then
          throw .invalidTimestamp) = skip cls (compressedTimestampSize (header / 0x20)) := by
    simp only [if_neg hvalid, bind_pure_unit]
  have hload {α : Type} (count : ℕ) (hcount : count ≤ 0x200) (f : ℕ → α) :
      SkipsLike cls (do return f (← loadLE cls count)) (skip cls count) :=
    (SkipsLike.of_passesOver (passesOver_loadLE hcount)).map f
  have hcases : header / 0x20 = 0 ∨ header / 0x20 = 1 ∨ header / 0x20 = 2 ∨ header / 0x20 = 3 ∨ header / 0x20 = 4 ∨
      header / 0x20 = 5 ∨ header / 0x20 = 6 ∨ header / 0x20 = 7 := by omega
  rcases hcases with h | h | h | h | h | h | h | h
  · rw [h]
    exact skipsLike_throw _
  · rw [hskip (by omega), h]
    exact hload 5 (by decide) _
  · rw [hskip (by omega), h]
    exact hload 4 (by decide) _
  · rw [hskip (by omega), h]
    exact hload 3 (by decide) _
  · rw [hskip (by omega), h]
    exact hload 2 (by decide) _
  · by_cases hnull : header % 0x20 = 0
    · rw [hskip (by omega), h, getTimeOf, if_pos hnull]
      exact skipsLike_skip_zero _
    · rw [h, getTimeOf, if_neg hnull]
      exact skipsLike_throw _
  · rw [hskip (by omega), h]
    exact hload 7 (by decide) _
  · rw [hskip (by omega), h]
    exact hload 8 (by decide) _

theorem skipsLike_readDateTime (n : ℕ) :
    SkipsLike cls (unlessEnd timestampNull (getCompressedNanoTimeDividedBy cls n)) (skipDateTime cls) := by
  apply SkipsLike.unlessEnd
  apply passes_getByte.skipsLike_bind
  exact fun _ hheader ↦ skipsLike_getTimeOf n hheader

theorem skipsLike_getDecimalOf {header : ℕ} :
    SkipsLike cls (getDecimalOf cls header)
      (if header = 0x1F ∨ header = 0x2F ∨ header = 0x3F then return ()
        else if header = 0x0F then skip cls (8 : ℕ)
        else skip cls (header / 0x10 % 8 : ℕ)) := by
  rw [getDecimalOf]
  by_cases hnull : header = 0x1F
  · rw [if_pos hnull, if_pos (.inl hnull)]
    exact skipsLike_pure _
  rw [if_neg hnull]
  by_cases hnegative : header = 0x2F
  · rw [if_pos hnegative, if_pos (.inr (.inl hnegative))]
    exact skipsLike_pure _
  rw [if_neg hnegative]
  by_cases hpositive : header = 0x3F
  · rw [if_pos hpositive, if_pos (.inr (.inr hpositive))]
    exact skipsLike_pure _
  have hspecial : ¬ (header = 0x1F ∨ header = 0x2F ∨ header = 0x3F) := by omega
  rw [if_neg hpositive, if_neg hspecial]
  by_cases hfloat : header = 0x0F
  · rw [if_pos hfloat, if_pos hfloat]
    exact (SkipsLike.of_passesOver (passesOver_loadBE (by decide))).map _
  rw [if_neg hfloat, if_neg hfloat]
  by_cases hzero : header / 0x10 % 8 = 0
  · rw [if_pos hzero, hzero]
    exact skipsLike_skip_zero _
  · rw [if_neg hzero]
    exact (SkipsLike.of_passesOver (passesOver_loadLE (by omega))).map _

theorem skipsLike_getDecimal :
    SkipsLike cls (getDecimal cls) (do
      let header ← getByte cls
      if header = 0x1F ∨ header = 0x2F ∨ header = 0x3F then return ()
      else if header = 0x0F then skip cls 8
      else skip cls (header / 0x10 % 8 : ℕ)) :=
  passes_getByte.skipsLike_bind fun _ _ ↦ skipsLike_getDecimalOf

/-- The length of an alphanumeric value, which is looked at and stays ahead. -/
def peekLength (cls : ReaderClass) (fieldSize : ℕ) : ReaderM ℕ := do
  let p ← peek cls ((sizeBits fieldSize + 7) / 8 : ℕ)
  let r ← get
  return alphanumericLength fieldSize (ofBigEndian (ByteMemory.bytes r.mem p 4))

theorem skipAlphanumeric_eq (fieldSize : ℕ) :
    skipAlphanumeric fieldSize cls = unlessEnd () (do
      let len ← peekLength cls fieldSize
      skip cls (if len ≠ sizeCodes fieldSize then (sizeBits fieldSize + 7 + 6 * len) / 8
        else (sizeBits fieldSize + 7) / 8 : ℕ)) := by
  simp only [skipAlphanumeric, peekLength, bind_assoc, pure_bind]

theorem getAlphanumeric_eq (fieldSize : ℕ) :
    getAlphanumeric cls fieldSize = (do
      let len ← peekLength cls fieldSize
      if sizeCodes fieldSize = len then
        skip cls ((sizeBits fieldSize + 7) / 8 : ℕ)
        return none
      else
        let p ← bytes cls ((sizeBits fieldSize + len * 6 + 7) / 8 : ℕ)
        let r ← get
        return some (unpackCharacters r.mem len (ofBigEndian (ByteMemory.bytes r.mem p 4))
          (32 - sizeBits fieldSize - 6) (p + 4))) := by
  simp only [getAlphanumeric, peekLength, bind_assoc, pure_bind]

theorem passesOver_skip {n : ℕ} : PassesOver cls n (skip cls n) := by
  intro r rest left hready hroomy
  apply wp_mono (skip_spec hready hroomy.hasBuffer)
  · exact fun _ _ h' ↦ ⟨⟨h'.1, h'.2.1⟩, h'.2.2⟩
  · exact fun _ _ _ ↦ trivial

theorem skipsLike_readAlphanumeric (fieldSize : ℕ) :
    SkipsLike cls (readAlphanumeric fieldSize cls) (skipAlphanumeric fieldSize cls) := by
  rw [skipAlphanumeric_eq, readAlphanumeric, getAlphanumeric_eq]
  apply SkipsLike.unlessEnd
  apply passes_peek.skipsLike_bind
  intro len _
  by_cases hnull : sizeCodes fieldSize = len
  · rw [if_pos hnull, if_neg (not_not.mpr hnull.symm)]
    exact (SkipsLike.of_passesOver passesOver_skip).map fun _ ↦ none
  · have hcount : (sizeBits fieldSize + len * 6 + 7) / 8 = (sizeBits fieldSize + 7 + 6 * len) / 8 := by
      congr 1
      omega
    rw [if_neg hnull, if_pos (Ne.symm hnull), hcount]
    exact .of_passesOver passesOver_bytes

/-- The top bits of a load of four bytes are the top bits of the first. -/
theorem alphanumericLength_eq {fieldSize : ℕ} (hbits : sizeBits fieldSize ≤ 8) (mem : Memory) (p : ℤ) :
    alphanumericLength fieldSize (ofBigEndian (ByteMemory.bytes mem p 4)) =
      (mem p).toNat >>> (8 - sizeBits fieldSize) := by
  have hfirst := @loaded_div mem p (ByteMemory.bytes mem p 1) 4 (by rw [length_bytes]; decide) (by rw [length_bytes])
  rw [length_bytes, ofBigEndian_byte] at hfirst
  have hshift : 2 ^ (32 - sizeBits fieldSize) = 256 ^ (4 - 1) * 2 ^ (8 - sizeBits fieldSize) := by
    rw [show 256 ^ (4 - 1) = 2 ^ 24 by rfl, ← pow_add]
    congr 1
    omega
  rw [alphanumericLength, Nat.shiftRight_eq_div_pow, Nat.shiftRight_eq_div_pow, hshift, ← Nat.div_div_eq_div_mul, hfirst]

/-- The part of `getAlphanumericAs` behind the length. -/
def getAlphanumericAsOf (cls : ReaderClass) (size fieldSize len : ℕ) : ReaderM ℕ :=
  if sizeCodes fieldSize ≤ len then
    if len = sizeCodes fieldSize then do
      skip cls (1 : ℕ)
      return alphanumericNull size
    else
      throw .alphanumericLengthTooBig
  else do
    let p ← bytes cls ((sizeBits fieldSize + 7 + 6 * len) / 8 : ℕ)
    let r ← get
    return highByteMask64 ((sizeBits fieldSize + 7 + 6 * len) / 8) &&& ofBigEndian (ByteMemory.bytes r.mem p size)

theorem skipsLike_getAlphanumericAsOf (size fieldSize len : ℕ) :
    SkipsLike cls (getAlphanumericAsOf cls size fieldSize len)
      (skip cls (if len ≠ sizeCodes fieldSize then (sizeBits fieldSize + 7 + 6 * len) / 8 else 1 : ℕ)) := by
  rw [getAlphanumericAsOf]
  by_cases hlong : sizeCodes fieldSize ≤ len
  · rw [if_pos hlong]
    by_cases hnull : len = sizeCodes fieldSize
    · rw [if_pos hnull, if_neg (not_not.mpr hnull)]
      exact (SkipsLike.of_passesOver passesOver_skip).map fun _ ↦ alphanumericNull size
    · rw [if_neg hnull]
      exact skipsLike_throw _
  · have hnull : len ≠ sizeCodes fieldSize := by omega
    rw [if_neg hlong, if_pos hnull]
    exact .of_passesOver passesOver_bytes

/-- A field of at most ten characters has a length of at most four bits. -/
theorem getAlphanumericAs_eq (size : ℕ) {fieldSize : ℕ} (hcodes : sizeCodes fieldSize ≠ 0)
    (hsmall : sizeCodes fieldSize ≤ 10 + 1) :
    (sizeBits fieldSize + 7) / 8 = 1 ∧
      getAlphanumericAs cls size fieldSize = (peekLength cls fieldSize >>= getAlphanumericAsOf cls size fieldSize) := by
  have hpositive : 0 < sizeBits fieldSize := Nat.size_pos.mpr (Nat.pos_of_ne_zero hcodes)
  have hle : sizeBits fieldSize ≤ 4 := by
    rw [sizeBits, Nat.size_le]
    omega
  have hheader : (sizeBits fieldSize + 7) / 8 = 1 := by omega
  refine ⟨hheader, ?_⟩
  simp only [getAlphanumericAs, if_neg (not_lt.mpr hsmall), peekLength, hheader, bind_assoc, pure_bind,
    getAlphanumericAsOf, @alphanumericLength_eq fieldSize (by omega)]
  rfl

/-- Where the size and one more is zero, the length has no bits, and no byte is looked at. -/
theorem skipsLike_readAlphanumericAs (size : ℕ) {fieldSize : ℕ} (hcodes : sizeCodes fieldSize ≠ 0) :
    SkipsLike cls (readAlphanumericAs size fieldSize cls) (skipAlphanumeric fieldSize cls) := by
  rw [skipAlphanumeric_eq, readAlphanumericAs]
  apply SkipsLike.unlessEnd
  by_cases hlarge : 10 + 1 < sizeCodes fieldSize
  · rw [getAlphanumericAs, if_pos hlarge]
    exact skipsLike_throw _
  · obtain ⟨hheader, hread⟩ := @getAlphanumericAs_eq cls size fieldSize hcodes (not_lt.mp hlarge)
    rw [hread, hheader]
    apply passes_peek.skipsLike_bind
    exact fun len _ ↦ skipsLike_getAlphanumericAsOf size fieldSize len

theorem skipsLike_readUTF8 : SkipsLike cls (readUTF8 cls) (skipUTF8 cls) := by
  apply SkipsLike.unlessEnd
  apply (passesOver_loadBE (by decide)).passes.skipsLike_bind
  intro len _
  by_cases hnull : len = 0xFFFF
  · rw [if_pos hnull, if_pos hnull]
    exact skipsLike_skip_zero _
  · rw [if_neg hnull, if_neg hnull]
    exact (SkipsLike.of_passesOver passesOver_getBytes).map some

theorem skipsLike_readBinary (hmsg : cls.isMsg) : SkipsLike cls (readBinary cls) (skipBinary cls) := by
  apply SkipsLike.of_load (by decide) (by decide) hmsg
  apply (passesOver_loadBE (by decide)).passes.skipsLike_bind
  intro isNull _
  by_cases hnull : isNull ≠ 0
  · rw [if_pos hnull, if_pos hnull]
    exact skipsLike_pure _
  · rw [if_neg hnull, if_neg hnull]
    apply (passes_getPackedUInt 4).skipsLike_bind
    intro len _
    exact (SkipsLike.of_passesOver passesOver_getBytes).map some

theorem skipsLike_readBoolean (hmsg : cls.isMsg) : SkipsLike cls (readBoolean cls) (skipInt8 cls) :=
  .of_load (by decide) (by decide) hmsg ((SkipsLike.of_passesOver (passesOver_loadBE (by decide))).map _)

end

/-! ## Containers -/

/-- Two readers at the same place of a message, in the same containers with the same limits. -/
structure SamePlace (cls : ReaderClass) (message : List UInt8) (n : ℕ) (r r' : DataReader) : Prop where
  place : ∃ consumed left, InMessage cls r message n consumed left ∧ InMessage cls r' message n consumed left
  depth_eq : r'.depth = r.depth
  eOfs_eq : ∀ i < r.depth, r'.eOfs i = r.eOfs i
  kinds_eq : ∀ i < r.depth, r'.containerIsArray i = r.containerIsArray i

/-- What is between the start and the end of a container that is not null is `inner`. -/
def readNested {α : Type} (cls : ReaderClass) (isArray : Bool) (inner : ReaderM α) : ReaderM Unit := do
  let found ← unlessEnd none (do
    if ← openContainer cls isArray then return some (← inner) else return none)
  if found.isSome then
    closeContainer cls isArray

/-- `readArrayStart` and, unless the array is null, `readArrayEnd`. -/
def readArray (cls : ReaderClass) : ReaderM Unit := do
  if (← readArrayStart cls).isSome then
    closeContainer cls true

/-- `readObjectStart` and, unless the object is null, `readObjectEnd`. -/
def readObject (cls : ReaderClass) : ReaderM Unit := do
  if (← readObjectStart cls).isSome then
    closeContainer cls false

section

variable {α : Type} {cls : ReaderClass} {r r' : DataReader} {message : List UInt8} {n consumed left count : ℕ}

theorem readArray_eq : readArray cls = readNested cls true (getPackedUInt22 cls) := rfl

theorem readObject_eq :
    readObject cls = readNested cls false (do let p ← bytes cls (1 : ℕ); let r ← get; return r.mem p) := by
  simp only [readObject, readObjectStart, readNested, unlessEnd, bind_assoc, pure_bind]
  rfl

theorem InMessage.passed (h : InMessage cls r message n consumed left)
    (hpassed : Passed cls r r' (message.drop consumed) left count) :
    InMessage cls r' message n (consumed + count) (left - count) ∧ SameNesting r r' := by
  have hle := (within_iff.mp hpassed.within).2 h.isMsg
  have hready := hpassed.took.ready
  exact ⟨h.take hpassed.took.moved hready (by omega), hpassed.took.moved.sameNesting⟩

theorem InMessage.skip (h : InMessage cls r message n consumed left) (hcontent : count ≤ left)
    (hwhole : count ≤ (message.drop consumed).length) :
    wp (skip cls count)
      (fun _ r' ↦ InMessage cls r' message n (consumed + count) (left - count) ∧ SameNesting r r')
      (fun _ _ ↦ False) r := by
  apply wp_mono (skip_spec h.ready h.hasBuffer)
  · exact fun _ _ h' ↦ ⟨h.take h'.1 h'.2.1 hcontent, h'.1.sameNesting⟩
  · intro _ _ h'
    rcases h' with hexceeds | hsmall
    · exact within_iff.mpr ⟨by omega, fun _ ↦ by omega⟩ hexceeds
    · exact hsmall (Roomy.hasRoom_skip h.hasRoom _)

/-- The part of `skipContainer` behind the length. -/
def skipContainerOf (cls : ReaderClass) (size : ℕ) : ReaderM Unit := do
  let r ← get
  let remaining := (r.contentEnd - r.dataPtr).toNat
  skip cls (if size ≤ remaining then size else remaining : ℕ)

theorem InMessage.skipContainerOf {size : ℕ} (h : InMessage cls r message n consumed left)
    (hwhole : min size left ≤ (message.drop consumed).length) :
    wp (skipContainerOf cls size)
      (fun _ r' ↦ InMessage cls r' message n (consumed + min size left) (left - min size left) ∧ SameNesting r r')
      (fun _ _ ↦ False) r := by
  have hend := h.contentEnd_eq
  have hremaining : (r.contentEnd - r.dataPtr).toNat = left := by omega
  simp only [Reader.skipContainerOf, wp_bind, wp_get, hremaining, ← min_def]
  exact h.skip (min_le_right size left) hwhole

/-- Where an opened container is closed, its content was all there. -/
theorem InMessage.closeNested {isArray : Bool} {inner : ReaderM α} {r₁ : DataReader} {length held : ℕ}
    (hinner : Passes cls (fun _ ↦ True) inner) (h : InMessage cls r₁ message n consumed length)
    (hopened : Opened isArray held r r₁) :
    wp (do let _ ← inner; Reader.closeContainer cls isArray)
      (fun _ r' ↦ InMessage cls r' message n (consumed + length) held ∧ r'.depth = r.depth ∧
        r'.eOfs = Function.update r.eOfs r.depth held ∧
        r'.containerIsArray = Function.update r.containerIsArray r.depth isArray ∧
        length ≤ (message.drop consumed).length)
      (fun _ _ ↦ True) r₁ := by
  obtain ⟨hdepth, heOfs, hkinds⟩ := hopened
  apply wp_call (hinner r₁ _ _ h.ready h.hasRoom)
  · intro _ r₂ h₂
    obtain ⟨-, count, hpassed⟩ := h₂
    obtain ⟨hin, hdepth', heOfs', hkinds'⟩ := h.passed hpassed
    have hwithin := within_iff.mp hpassed.within
    have hcontent := hwithin.2 h.isMsg
    have hkind : r₂.containerIsArray r.depth = isArray := by rw [hkinds', hkinds, Function.update_self]
    apply wp_mono (hin.closeContainer (hdepth'.trans hdepth) hkind)
    · intro _ r₃ h₃
      obtain ⟨hin', hdepth'', heOfs'', hkinds'', hwhole⟩ := h₃
      have hheld : r₂.eOfs r.depth = held := by rw [heOfs', heOfs, Function.update_self]
      have hplace : consumed + count + (length - count) = consumed + length := by omega
      rw [hheld, hplace] at hin'
      rw [← List.drop_drop, List.length_drop] at hwhole
      exact ⟨hin', hdepth'', heOfs''.trans (heOfs'.trans heOfs), hkinds''.trans (hkinds'.trans hkinds), by omega⟩
    · exact fun _ _ _ ↦ trivial
  · exact fun _ _ _ ↦ trivial

/-- Behind the length: a null container has no content, and the other is closed where it is skipped. -/
theorem skipContainerOf_eq_nested {isArray : Bool} {inner : ReaderM α} {size : ℕ}
    (hinner : Passes cls (fun _ ↦ True) inner) (h : InMessage cls r message n consumed left) :
    wp (do
        let opened ← openContainerOf isArray size
        let found ← (do if opened then return some (← inner) else return none)
        if found.isSome then
          closeContainer cls isArray)
      (fun _ r' ↦ wp (skipContainerOf cls size) (fun _ r'' ↦ SamePlace cls message n r' r'') (fun _ _ ↦ False) r)
      (fun _ _ ↦ True) r := by
  by_cases hnull : size = 0
  · have hopen : openContainerOf isArray size r = .ok false r := by
      rw [openContainerOf, hnull]
      rfl
    rw [wp_bind, wp_ok hopen]
    have hnone : min size left = 0 := by omega
    have hskip := h.skipContainerOf (hnone.trans_le (Nat.zero_le _))
    rw [hnone] at hskip
    apply wp_mono hskip
    · intro _ r' h'
      exact ⟨⟨consumed, left, h, h'.1⟩, h'.2.depth_eq, fun _ _ ↦ congrFun h'.2.eOfs_eq _,
        fun _ _ ↦ congrFun h'.2.kinds_eq _⟩
    · exact fun _ _ ↦ id
  · by_cases hdepth : r.depth < readerMaxNestedObjects
    · apply wp_call (h.openContainerOf isArray hnull hdepth)
      · intro opened r₁ h₁
        obtain ⟨rfl, hin, hopened⟩ := h₁
        have hclose := hin.closeNested hinner hopened
        simp only [if_true, bind_assoc, pure_bind, Option.isSome_some]
        apply wp_mono hclose
        · intro _ r' h'
          obtain ⟨hin', hdepth', heOfs', hkinds', hwhole⟩ := h'
          apply wp_mono (h.skipContainerOf hwhole)
          · intro _ r'' h''
            obtain ⟨hin'', hdepth'', heOfs'', hkinds''⟩ := h''
            refine ⟨⟨_, _, hin', hin''⟩, hdepth''.trans hdepth'.symm, ?_, ?_⟩
            · intro i hi
              rw [heOfs'', heOfs', Function.update_of_ne (by omega)]
            · intro i hi
              rw [hkinds'', hkinds', Function.update_of_ne (by omega)]
          · exact fun _ _ ↦ id
        · exact fun _ _ _ ↦ trivial
      · exact fun _ _ ↦ False.elim
    · simp only [openContainerOf, wp_bind, wp_get, if_neg hnull, if_pos (not_lt.mp hdepth), wp_throw]

theorem skipNested_eq_nested {isArray : Bool} {inner : ReaderM α} (hinner : Passes cls (fun _ ↦ True) inner)
    (h : InMessage cls r message n consumed left) :
    wp (readNested cls isArray inner)
      (fun _ r' ↦ wp (skipNested cls) (fun _ r'' ↦ SamePlace cls message n r' r'') (fun _ _ ↦ False) r)
      (fun _ _ ↦ True) r := by
  have hskip : skipNested cls = unlessEnd () (do
      let size ← getPackedUInt22 cls
      skipContainerOf cls size) := rfl
  rw [hskip, readNested, wp_bind, wp_unlessEnd]
  constructor
  · intro hend
    apply wp_atEnd hend
    exact ⟨⟨consumed, left, h, h⟩, rfl, fun _ _ ↦ rfl, fun _ _ ↦ rfl⟩
  · intro hmore
    have hfirst := passes_getPackedUInt22 r _ _ h.ready h.hasRoom
    rw [openContainer_eq, bind_assoc]
    cases hrun : getPackedUInt22 cls r with
    | error error r₁ =>
      rw [wp_bind, wp_error hrun]
      trivial
    | ok size r₁ =>
      rw [wp_ok hrun] at hfirst
      obtain ⟨-, count, hpassed⟩ := hfirst
      have hnested := @skipContainerOf_eq_nested _ cls r₁ message n _ _ isArray inner size hinner (h.passed hpassed).1
      simp only [wp_bind, wp_ok hrun] at hnested ⊢
      apply wp_mono hnested
      · intro _ _ h'
        apply wp_mono h'
        · intro _ _ h''
          apply wp_mono h''
          · intro _ _ hskipped
            exact wp_beforeEnd hmore (wp_bind.mpr ((wp_ok hrun).mpr hskipped))
          · exact fun _ _ ↦ id
        · exact fun _ _ ↦ id
      · exact fun _ _ ↦ id

/-! ## All kinds -/

/-- A call that reads a field and the call that skips it. The size of a field that is read as a number
leaves room for one code more. -/
inductive FieldCalls : {α : Type} → (ReaderClass → ReaderM α) → (ReaderClass → ReaderM Unit) → Prop
  | uint8 : FieldCalls readUInt8 skipInt8
  | int8 : FieldCalls readInt8 skipInt8
  | enum8 : FieldCalls readEnum8 skipInt8
  | boolean : FieldCalls readBoolean skipInt8
  | nullableBooleanInt8 : FieldCalls readNullableBooleanInt8 skipInt8
  | nullableInt8 : FieldCalls readNullableInt8 skipInt8
  | nullableEnum8 : FieldCalls readNullableEnum8 skipInt8
  | nullableBoolean : FieldCalls readNullableBoolean skipInt8
  | int16 : FieldCalls readInt16 skipInt16
  | enum16 : FieldCalls readEnum16 skipInt16
  | wchar : FieldCalls readWChar skipInt16
  | nullableInt16 : FieldCalls readNullableInt16 skipInt16
  | nullableEnum16 : FieldCalls readNullableEnum16 skipInt16
  | nullableWChar : FieldCalls readNullableWChar skipInt16
  | int32 : FieldCalls readInt32 skipInt32
  | float32 : FieldCalls readFloat32 skipInt32
  | timeOfDay : FieldCalls readTimeOfDay skipInt32
  | enum32 : FieldCalls readEnum32 skipInt32
  | nullableInt32 : FieldCalls readNullableInt32 skipInt32
  | nullableFloat32 : FieldCalls readNullableFloat32 skipInt32
  | nullableEnum32 : FieldCalls readNullableEnum32 skipInt32
  | int48 : FieldCalls readInt48 skipInt48
  | nullableInt48 : FieldCalls readNullableInt48 skipInt48
  | int64 : FieldCalls readInt64 skipInt64
  | float64 : FieldCalls readFloat64 skipInt64
  | timestamp : FieldCalls readTimestamp skipInt64
  | enum64 : FieldCalls readEnum64 skipInt64
  | nullableInt64 : FieldCalls readNullableInt64 skipInt64
  | nullableFloat64 : FieldCalls readNullableFloat64 skipInt64
  | nullableTimestamp : FieldCalls readNullableTimestamp skipInt64
  | nullableEnum64 : FieldCalls readNullableEnum64 skipInt64
  | pUInt30 : FieldCalls readPUInt30 skipPUInt30
  | nullablePUInt30 : FieldCalls readNullablePUInt30 skipPUInt30
  | pUInt61 : FieldCalls readPUInt61 skipPUInt61
  | nullablePUInt61 : FieldCalls readNullablePUInt61 skipPUInt61
  | interval : FieldCalls readInterval skipInterval
  | nullableInterval : FieldCalls readNullableInterval skipInterval
  | dateTimeNs : FieldCalls readDateTimeNs skipDateTime
  | dateTimeMs : FieldCalls readDateTimeMs skipDateTime
  | decimal : FieldCalls readDecimal skipDecimal
  | nullableDecimal : FieldCalls readNullableDecimal skipDecimal
  | alphanumeric (fieldSize : ℕ) : FieldCalls (readAlphanumeric fieldSize) (skipAlphanumeric fieldSize)
  | alphanumericAs (size fieldSize : ℕ) (hfield : fieldSize + 1 < 2 ^ 32) :
    FieldCalls (readAlphanumericAs size fieldSize) (skipAlphanumeric fieldSize)
  | utf8 : FieldCalls readUTF8 skipUTF8
  | ascii : FieldCalls readAscii skipAscii
  | binary : FieldCalls readBinary skipBinary
  | array : FieldCalls readArray skipNested
  | object : FieldCalls readObject skipNested

/-- Every kind but the containers takes bytes and leaves the limits. -/
theorem SkipsLike.samePlace {read : ReaderM α} {skipping : ReaderM Unit} (hsame : SkipsLike cls read skipping)
    (h : InMessage cls r message n consumed left) :
    wp read
      (fun _ r' ↦ wp skipping (fun _ r'' ↦ SamePlace cls message n r' r'') (fun _ _ ↦ False) r)
      (fun _ _ ↦ True) r := by
  apply wp_mono (hsame r _ _ h.ready h.hasRoom)
  · intro _ r' h'
    apply wp_mono h'
    · intro _ r'' h''
      obtain ⟨count, hread, hskip⟩ := h''
      obtain ⟨hin, hdepth, heOfs, hkinds⟩ := h.passed hread
      obtain ⟨hin', hdepth', heOfs', hkinds'⟩ := h.passed hskip
      exact ⟨⟨_, _, hin, hin'⟩, hdepth'.trans hdepth.symm, fun _ _ ↦ congrFun (heOfs'.trans heOfs.symm) _,
        fun _ _ ↦ congrFun (hkinds'.trans hkinds.symm) _⟩
    · exact fun _ _ ↦ id
  · exact fun _ _ ↦ id

/-- A field is skipped as it is read, at any place of a message. -/
theorem skip_follows_read {read : ReaderClass → ReaderM α} {skipping : ReaderClass → ReaderM Unit}
    (hcalls : FieldCalls read skipping) (h : InMessage cls r message n consumed left) :
    wp (read cls)
      (fun _ r' ↦ wp (skipping cls) (fun _ r'' ↦ SamePlace cls message n r' r'') (fun _ _ ↦ False) r)
      (fun _ _ ↦ True) r := by
  cases hcalls with
  | uint8 => exact (skipsLike_loadBE (by decide)).samePlace h
  | int8 => exact (skipsLike_loadSigned (by decide)).samePlace h
  | enum8 => exact (skipsLike_loadSigned (by decide)).samePlace h
  | boolean => exact (skipsLike_readBoolean h.isMsg).samePlace h
  | nullableBooleanInt8 => exact (skipsLike_loadSigned (by decide)).samePlace h
  | nullableInt8 => exact (skipsLike_nullableSigned (by decide)).samePlace h
  | nullableEnum8 => exact (skipsLike_nullableSigned (by decide)).samePlace h
  | nullableBoolean => exact ((skipsLike_nullableBE (by decide)).map _).samePlace h
  | int16 => exact (skipsLike_loadSigned (by decide)).samePlace h
  | enum16 => exact (skipsLike_loadSigned (by decide)).samePlace h
  | wchar => exact (skipsLike_loadBE (by decide)).samePlace h
  | nullableInt16 => exact (skipsLike_nullableSigned (by decide)).samePlace h
  | nullableEnum16 => exact (skipsLike_nullableSigned (by decide)).samePlace h
  | nullableWChar => exact (skipsLike_nullableBE (by decide)).samePlace h
  | int32 => exact (skipsLike_loadSigned (by decide)).samePlace h
  | float32 => exact (skipsLike_loadBE (by decide)).samePlace h
  | timeOfDay => exact (skipsLike_loadSigned (by decide)).samePlace h
  | enum32 => exact (skipsLike_loadSigned (by decide)).samePlace h
  | nullableInt32 => exact (skipsLike_nullableSigned (by decide)).samePlace h
  | nullableFloat32 => exact (skipsLike_nullableBE (by decide)).samePlace h
  | nullableEnum32 => exact (skipsLike_nullableSigned (by decide)).samePlace h
  | int48 => exact (skipsLike_loadSigned (by decide)).samePlace h
  | nullableInt48 => exact (skipsLike_nullableSigned (by decide)).samePlace h
  | int64 => exact (skipsLike_loadSigned (by decide)).samePlace h
  | float64 => exact (skipsLike_loadBE (by decide)).samePlace h
  | timestamp => exact (skipsLike_loadSigned (by decide)).samePlace h
  | enum64 => exact (skipsLike_loadSigned (by decide)).samePlace h
  | nullableInt64 => exact (skipsLike_nullableSigned (by decide)).samePlace h
  | nullableFloat64 => exact (skipsLike_nullableBE (by decide)).samePlace h
  | nullableTimestamp => exact (skipsLike_loadSigned (by decide)).nullable_left.samePlace h
  | nullableEnum64 => exact (skipsLike_nullableSigned (by decide)).samePlace h
  | pUInt30 => exact (skipsLike_readPUInt 4 uint30Null).samePlace h
  | nullablePUInt30 => exact (skipsLike_readPUInt 4 uint30Null).nullable_left.samePlace h
  | pUInt61 => exact (skipsLike_readPUInt 8 uint61Null).samePlace h
  | nullablePUInt61 => exact (skipsLike_readPUInt 8 uint61Null).nullable_left.samePlace h
  | interval => exact skipsLike_readInterval.samePlace h
  | nullableInterval => exact skipsLike_readInterval.nullable_left.samePlace h
  | dateTimeNs => exact (skipsLike_readDateTime _).samePlace h
  | dateTimeMs => exact (skipsLike_readDateTime _).samePlace h
  | decimal => exact (skipsLike_getDecimal.unlessEnd.map _).samePlace h
  | nullableDecimal => exact (skipsLike_getDecimal.map _).nullable.samePlace h
  | alphanumeric fieldSize => exact (skipsLike_readAlphanumeric fieldSize).samePlace h
  | alphanumericAs size fieldSize hfield =>
    have hcodes : sizeCodes fieldSize ≠ 0 := by
      rw [sizeCodes, Nat.mod_eq_of_lt hfield]
      exact Nat.succ_ne_zero fieldSize
    exact (skipsLike_readAlphanumericAs size hcodes).samePlace h
  | utf8 => exact skipsLike_readUTF8.samePlace h
  | ascii => exact skipsLike_readUTF8.samePlace h
  | binary => exact (skipsLike_readBinary h.isMsg).samePlace h
  | array => exact @readArray_eq cls ▸ skipNested_eq_nested passes_getPackedUInt22 h
  | object => exact @readObject_eq cls ▸ skipNested_eq_nested passesOver_bytes.passes h

end

/-- A reader at the start of a message that is all there. -/
def atMessage (body : List UInt8) : DataReader := finalState (setMessageSize body.length) (messageReader body)

theorem atMessage_inMessage {body : List UInt8} (hbody : body.length < 2 ^ 32) :
    InMessage .msg (atMessage body) body body.length 0 body.length := by
  have hspec := (messageReader_ahead hbody).setMessageSize rfl le_rfl
  obtain ⟨_, r, hrun, hin, -⟩ := exists_ok_of_wp hspec
  have hfinal : atMessage body = r := by rw [atMessage, finalState, hrun]
  rwa [hfinal]

/-- An array of one item that is left unread. -/
theorem skip_follows_read_array :
    ∃ r, InMessage .msg r [2, 1, 7, 9] 4 0 4 ∧
      wp (readArray .msg)
        (fun _ r' ↦ wp (skipNested .msg) (fun _ r'' ↦ SamePlace .msg [2, 1, 7, 9] 4 r' r'') (fun _ _ ↦ False) r)
        (fun _ _ ↦ True) r := by
  obtain ⟨r, hin⟩ : ∃ r, InMessage .msg r [2, 1, 7, 9] 4 0 4 := ⟨_, atMessage_inMessage (by decide)⟩
  exact ⟨r, hin, skip_follows_read .array hin⟩

/-- What is left of the content after a program that returns. -/
def contentLeft {α : Type} (program : ReaderM α) (r : DataReader) : Option ℤ :=
  match program r with
  | .ok _ r' => some (r'.contentEnd - r'.dataPtr)
  | .error _ _ => none

theorem exists_of_contentLeft {α : Type} {program : ReaderM α} {r : DataReader} {post : α → DataReader → Prop}
    {fail : ReadError → DataReader → Prop} {left : ℤ} (hleft : contentLeft program r = some left)
    (h : wp program post fail r) : ∃ value r', post value r' ∧ r'.contentEnd - r'.dataPtr = left := by
  unfold contentLeft at hleft
  cases hrun : program r with
  | ok value r' =>
    rw [hrun] at hleft
    exact ⟨value, r', (wp_ok hrun).mp h, Option.some.inj hleft⟩
  | error error r' =>
    rw [hrun] at hleft
    cases hleft

theorem SamePlace.left_eq {cls : ReaderClass} {message : List UInt8} {n : ℕ} {r r' : DataReader}
    (h : SamePlace cls message n r r') : r'.contentEnd - r'.dataPtr = r.contentEnd - r.dataPtr := by
  obtain ⟨consumed, left, hin, hin'⟩ := h.place
  have hend := hin.contentEnd_eq
  have hend' := hin'.contentEnd_eq
  omega

/-- The largest number of 32 bits as the size of a field: one more is zero, which is the code of null and
takes no bits. The call that reads takes a byte all the same. -/
theorem skip_differs_from_readAlphanumericAs :
    ¬ ∀ (fieldSize : ℕ) (r : DataReader) (message : List UInt8) (n consumed left : ℕ), fieldSize < 2 ^ 32 →
      InMessage .msg r message n consumed left →
      wp (readAlphanumericAs 8 fieldSize .msg)
        (fun _ r' ↦ wp (skipAlphanumeric fieldSize .msg) (fun _ r'' ↦ SamePlace .msg message n r' r'')
          (fun _ _ ↦ False) r)
        (fun _ _ ↦ True) r := by
  intro hall
  have hspec := hall 0xFFFFFFFF _ _ _ _ _ (by decide) (@atMessage_inMessage [0, 0, 0, 0] (by decide))
  have hread : contentLeft (readAlphanumericAs 8 0xFFFFFFFF .msg) (atMessage [0, 0, 0, 0]) = some 3 := by
    decide +kernel
  have hskip : contentLeft (skipAlphanumeric 0xFFFFFFFF .msg) (atMessage [0, 0, 0, 0]) = some 4 := by
    decide +kernel
  obtain ⟨_, r', hskipped, hleft⟩ := exists_of_contentLeft hread hspec
  obtain ⟨_, r'', hsame, hleft'⟩ := exists_of_contentLeft hskip hskipped
  have hequal := hsame.left_eq
  rw [hleft, hleft'] at hequal
  exact absurd hequal (by decide)

end DxApi.Reader
