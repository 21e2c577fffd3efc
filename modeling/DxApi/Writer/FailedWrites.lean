import DxApi.Writer.Fields

/-!
# Field writes that throw

A store that throws has moved the pointer behind the end of the buffer. A field write that throws
therefore spoils the writer, unless it looked at its argument before the first store and refused it:
then the writer is as it was. `LeafWrite.Refused` says which arguments those are.
-/

namespace DxApi.Writer

open Exec ByteMemory ByteOrder

variable {w w' w'' : DataWriter}

/-! ## What stores do -/

/-- Some bytes were written and the pointer was not moved back; nothing else changed. -/
structure Grown (w w' : DataWriter) : Prop where
  rest : w' = { w with mem := w'.mem, dataPtr := w'.dataPtr }
  forward : w.dataPtr ≤ w'.dataPtr

/-- The pointer is not where it was, or behind the end of the buffer. -/
def Spoiled (w w' : DataWriter) : Prop := w.dataPtr < w'.dataPtr ∨ w.dataEnd < w'.dataPtr

theorem Grown.refl (w : DataWriter) : Grown w w := ⟨rfl, le_rfl⟩

theorem Grown.trans (h : Grown w w') (h' : Grown w' w'') : Grown w w'' := by
  have hrest : w'' = { w with mem := w''.mem, dataPtr := w''.dataPtr } := by
    rw [h'.rest, h.rest]
  exact ⟨hrest, h.forward.trans h'.forward⟩

theorem Grown.dataEnd (h : Grown w w') : w'.dataEnd = w.dataEnd := by rw [h.rest]

theorem Grown.bufferStart (h : Grown w w') : w'.bufferStart = w.bufferStart := by rw [h.rest]

/-- Bytes are changed anywhere. -/
theorem Grown.of_mem (w : DataWriter) (mem : Memory) : Grown w { w with mem := mem } := ⟨rfl, le_rfl⟩

/-- What a call leaves that returns. -/
def Written (w w' : DataWriter) : Prop := Grown w w' ∧ (w.dataPtr ≤ w.dataEnd → w'.dataPtr ≤ w'.dataEnd)

theorem Written.refl (w : DataWriter) : Written w w := ⟨Grown.refl w, id⟩

theorem Written.trans (h : Written w w') (h' : Written w' w'') : Written w w'' :=
  ⟨h.1.trans h'.1, fun hle ↦ h'.2 (h.2 hle)⟩

/-- Stores, and failures between them. -/
def Stores {α : Type} (program : WriterM α) : Prop :=
  ∀ w, wp program (fun _ w' ↦ Written w w') (fun _ w' ↦ Grown w w') w

/-- Stores of which a failure spoils the writer. -/
def Spoils {α : Type} (program : WriterM α) : Prop :=
  ∀ w, wp program (fun _ w' ↦ Written w w') (fun _ w' ↦ Grown w w' ∧ Spoiled w w') w

/-- The first store moves the pointer. -/
def Steps {α : Type} (program : WriterM α) : Prop :=
  ∀ w, wp program (fun _ w' ↦ Written w w' ∧ w.dataPtr < w'.dataPtr)
    (fun _ w' ↦ Grown w w' ∧ Spoiled w w') w

section

variable {α β : Type} {program : WriterM α} {next : α → WriterM β}

theorem Spoils.stores (h : Spoils program) : Stores program := fun w ↦
  wp_mono (h w) (fun _ _ hw ↦ hw) fun _ _ hw ↦ hw.1

theorem Steps.spoils (h : Steps program) : Spoils program := fun w ↦
  wp_mono (h w) (fun _ _ hw ↦ hw.1) fun _ _ hw ↦ hw

theorem stores_pure (value : α) : Stores (pure value) := fun w ↦ Written.refl w

theorem stores_throw (error : WriteError) : Stores (throw error : WriterM α) := fun w ↦ Grown.refl w

theorem stores_get : Stores (get : WriterM DataWriter) := fun w ↦ Written.refl w

theorem Stores.ite {condition : Prop} [Decidable condition] {other : WriterM α} (h : Stores program)
    (hother : Stores other) : Stores (if condition then program else other) := by
  by_cases hcondition : condition
  · rwa [if_pos hcondition]
  · rwa [if_neg hcondition]

theorem Stores.bind (h : Stores program) (hnext : ∀ value, Stores (next value)) :
    Stores (program >>= next) := by
  intro w
  apply wp_call (h w)
  · intro value w' hw'
    apply wp_mono (hnext value w')
    · exact fun _ _ hw'' ↦ hw'.trans hw''
    · exact fun _ _ hw'' ↦ hw'.1.trans hw''
  · exact fun _ _ hw' ↦ hw'

/-- Once the pointer has moved, any failure spoils the writer. -/
theorem Steps.bind (h : Steps program) (hnext : ∀ value, Stores (next value)) :
    Steps (program >>= next) := by
  intro w
  apply wp_call (h w)
  · intro value w' hw'
    have hforward := hw'.2
    apply wp_mono (hnext value w')
    · intro _ w'' hw''
      have hmore := hw''.1.forward
      exact ⟨hw'.1.trans hw'', hforward.trans_le hmore⟩
    · intro _ w'' hw''
      have hmore := hw''.forward
      exact ⟨hw'.1.1.trans hw'', Or.inl (hforward.trans_le hmore)⟩
  · exact fun _ _ hw' ↦ hw'

/-- Reading the state first does not make a difference. -/
theorem Steps.of_get {next : DataWriter → WriterM β} (h : ∀ w, Steps (next w)) :
    Steps (get >>= next) := fun w ↦ h w w

end

/-! ## Stores of words -/

theorem stores_storeByte (address : ℤ) (value : ℕ) : Stores (storeByte address value) := fun w ↦
  ⟨Grown.of_mem w _, id⟩

theorem putBE_moves (stored : List UInt8) (size : ℕ) (w : DataWriter) :
    wp (putBE stored size) (fun _ w' ↦ Written w w' ∧ w'.dataPtr = w.dataPtr + size)
      (fun _ w' ↦ Grown w w' ∧ w.dataEnd < w'.dataPtr) w := by
  have hgrown : Grown w { w with mem := store w.mem w.dataPtr stored, dataPtr := w.dataPtr + size } :=
    ⟨rfl, by simp⟩
  simp only [putBE, onOverflow, wp_bind, wp_get, wp_set, wp_ite, wp_throw, wp_pure]
  exact ⟨fun hover ↦ ⟨hgrown, hover⟩, fun hfits ↦ ⟨⟨hgrown, fun _ ↦ not_lt.mp hfits⟩, trivial⟩⟩

theorem putBE_spoils (stored : List UInt8) (size : ℕ) : Spoils (putBE stored size) := fun w ↦
  wp_mono (putBE_moves stored size w) (fun _ _ hw ↦ hw.1) fun _ _ hw ↦ ⟨hw.1, Or.inr hw.2⟩

theorem putBE_steps (stored : List UInt8) {size : ℕ} (hsize : 0 < size) : Steps (putBE stored size) := by
  intro w
  apply wp_mono (putBE_moves stored size w)
  · intro _ w' hw'
    have hptr := hw'.2
    exact ⟨hw'.1, by omega⟩
  · exact fun _ _ hw' ↦ ⟨hw'.1, Or.inr hw'.2⟩

theorem putByte_steps (value : UInt8) : Steps (putByte value) := putBE_steps _ Nat.one_pos

theorem putBytes_spoils (data : List UInt8) : Spoils (putBytes data) := by
  intro w
  have hgrown : ∀ mem, Grown w { w with mem := mem, dataPtr := w.dataPtr + data.length } :=
    fun mem ↦ ⟨rfl, by simp⟩
  simp only [putBytes, onOverflow, wp_bind, wp_get, wp_set, wp_ite, wp_throw]
  exact ⟨fun hbehind ↦ ⟨Grown.refl w, Or.inr hbehind⟩, fun _ ↦
    ⟨fun hover ↦ ⟨hgrown _, Or.inr hover⟩, fun hfits ↦ ⟨hgrown _, fun _ ↦ not_lt.mp hfits⟩⟩⟩

/-! ## Packed integers and decimals -/

theorem writeVariableLengthInt_steps (size value : ℕ) : Steps (writeVariableLengthInt size value) :=
  Steps.of_get fun _ ↦ (putBE_steps _ (Nat.succ_pos _)).bind fun _ ↦ stores_pure _

theorem writePackedUInt_steps (size value : ℕ) : Steps (writePackedUInt size value) :=
  (writeVariableLengthInt_steps _ _).bind fun _ ↦ stores_storeByte _ _

theorem putCompressedDecimal_steps (isNegative : Bool) (mantissa exp : ℕ) :
    Steps (putCompressedDecimal isNegative mantissa exp) :=
  (writeVariableLengthInt_steps _ _).bind fun _ ↦ stores_storeByte _ _

theorem putUncompressedDecimal_steps (value : Float) : Steps (putUncompressedDecimal value) :=
  (putByte_steps _).bind fun _ ↦ (putBE_spoils _ _).stores

theorem putRoundedDecimal_steps (value : Float) (mantissa exp : ℕ) :
    Steps (putRoundedDecimal value mantissa exp) := by
  unfold putRoundedDecimal
  by_cases hbig : mantissa / 2 ^ 56 ≠ 0
  · rw [if_pos hbig]
    exact (putUncompressedDecimal_steps value).bind
      fun _ ↦ (putCompressedDecimal_steps _ _ _).spoils.stores
  · rw [if_neg hbig]
    exact putCompressedDecimal_steps _ _ _

theorem putDecimal_steps (value : Float) : Steps (putDecimal value) := by
  unfold putDecimal
  cases specialDecimal value with
  | some byte => exact putByte_steps byte
  | none =>
    cases decimalFraction value.abs 15 0 with
    | some fraction => exact putCompressedDecimal_steps _ _ _
    | none => exact putUncompressedDecimal_steps value

theorem putDecimalOfPrecision_steps (value : Float) (precision : ℕ) :
    Steps (putDecimalOfPrecision value precision) := by
  unfold putDecimalOfPrecision
  cases specialDecimal value with
  | some byte => exact putByte_steps byte
  | none => exact putRoundedDecimal_steps _ _ _

theorem putOtherInterval_steps (value : ℕ) : Steps (putOtherInterval value) :=
  (putByte_steps _).bind fun _ ↦ (putBE_spoils _ _).stores

theorem putScaledInterval_steps (v value : ℕ) : Steps (putScaledInterval v value) := by
  unfold putScaledInterval
  by_cases hsmall : v < 0x40
  · rw [if_pos hsmall]
    exact putByte_steps _
  · rw [if_neg hsmall]
    exact putOtherInterval_steps value

/-! ## Strings and binary data -/

theorem putCodeUnit_stores (c : ℕ) : Stores (putCodeUnit c) := by
  have hbyte : ∀ byte, Stores (putByte byte) := fun byte ↦ (putByte_steps byte).spoils.stores
  unfold putCodeUnit
  exact (hbyte _).ite (((hbyte _).bind fun _ ↦ hbyte _).ite
    ((hbyte _).bind fun _ ↦ (hbyte _).bind fun _ ↦ hbyte _))

theorem putSurrogates_stores (c cc : ℕ) : Stores (putSurrogates c cc) := by
  have hbyte : ∀ byte, Stores (putByte byte) := fun byte ↦ (putByte_steps byte).spoils.stores
  exact (hbyte _).bind fun _ ↦ (hbyte _).bind fun _ ↦ (hbyte _).bind fun _ ↦ hbyte _

theorem putWideCharacters_stores (data : List ℕ) : Stores (putWideCharacters data) := by
  fun_induction putWideCharacters data with
  | case1 => exact stores_pure _
  | case2 c data _ ih => exact (putCodeUnit_stores c).bind fun _ ↦ ih
  | case3 => exact stores_throw _
  | case4 => exact stores_throw _
  | case5 => exact stores_throw _
  | case6 c _ _ cc data _ ih => exact (putSurrogates_stores c cc).bind fun _ ↦ ih

theorem storeLength_stores (header : ℤ) : Stores (storeLength header) := by
  intro w
  simp only [storeLength, wp_bind, wp_get, wp_ite, wp_throw, wp_modify]
  exact ⟨fun _ ↦ Grown.refl w, fun _ ↦ ⟨Grown.of_mem w _, id⟩⟩

theorem putLowBytes_stores (data : List ℕ) : Stores (putLowBytes data) := by
  induction data with
  | nil => exact stores_pure _
  | cons c data ih => exact (putByte_steps _).spoils.stores.bind fun _ ↦ ih

theorem reserveBytes_stores (size : ℕ) : Stores (reserveBytes size) := by
  intro w
  have hgrown : Grown w { w with dataPtr := w.dataPtr + size } := ⟨rfl, by simp⟩
  simp only [reserveBytes, wp_bind, wp_get, wp_set, wp_ite, wp_throw, wp_pure]
  exact ⟨fun _ ↦ ⟨fun _ ↦ hgrown, fun _ ↦ hgrown⟩, fun hfits ↦ ⟨hgrown, fun _ ↦ not_lt.mp hfits⟩⟩

theorem writeBinaryArray_steps (data : List UInt8) : Steps (writeBinaryArray data) := by
  have hheader : Steps (writeBinaryArrayEx data.length) :=
    (putByte_steps 0).bind fun _ ↦
      (writePackedUInt_steps _ _).spoils.stores.bind fun _ ↦ reserveBytes_stores _
  exact hheader.bind fun pStart w ↦ ⟨Grown.of_mem w _, id⟩

/-! ## Refused arguments -/

/-- A refused argument leaves the writer as it was, and any other failure spoils it. -/
structure Refuses (refused : Prop) (program : WriterM Unit) : Prop where
  unchanged : refused → ∀ w, wp program (fun _ _ ↦ False) (fun _ w' ↦ w' = w) w
  spoils : ¬ refused → Spoils program

section

variable {refused other : Prop} {program next : WriterM Unit}

theorem Spoils.refuses (h : Spoils program) : Refuses False program := ⟨False.elim, fun _ ↦ h⟩

theorem Spoils.ite {condition : Prop} [Decidable condition] (h : Spoils program)
    (hnext : Spoils next) : Spoils (if condition then program else next) := by
  by_cases hcondition : condition
  · rwa [if_pos hcondition]
  · rwa [if_neg hcondition]

theorem refuses_throw (error : WriteError) : Refuses True (throw error) :=
  ⟨fun _ _ ↦ rfl, fun h ↦ absurd trivial h⟩

theorem Refuses.congr (h : Refuses refused program) (hiff : other ↔ refused) : Refuses other program :=
  ⟨fun hother ↦ h.unchanged (hiff.mp hother), fun hother ↦ h.spoils fun hrefused ↦
    hother (hiff.mpr hrefused)⟩

theorem Refuses.ite {condition : Prop} [Decidable condition] (h : Refuses refused program)
    (hother : Refuses other next) :
    Refuses (if condition then refused else other) (if condition then program else next) := by
  by_cases hcondition : condition
  · rwa [if_pos hcondition, if_pos hcondition]
  · rwa [if_neg hcondition, if_neg hcondition]

/-- A check before the first store. -/
theorem Refuses.check {condition : Prop} [Decidable condition] (error : WriteError)
    (h : Refuses refused program) :
    Refuses (condition ∨ refused) (if condition then throw error else program) := by
  apply (Refuses.ite (refuses_throw error) h).congr
  by_cases hcondition : condition
  · simp [hcondition]
  · simp [hcondition]

end

theorem writePUInt_refuses (size nullValue maxValue value : ℕ) :
    Refuses (value ≠ nullValue ∧ maxValue < value) (writePUInt size nullValue maxValue value) := by
  have hpacked : Refuses (if value = nullValue then False else maxValue < value ∨ False)
      (writePUInt size nullValue maxValue value) :=
    (putByte_steps 0).spoils.refuses.ite
      ((writePackedUInt_steps size (value + 1)).spoils.refuses.check (.numberTooBig value))
  apply hpacked.congr
  by_cases hnull : value = nullValue
  · simp [hnull]
  · simp [hnull]

theorem putInterval_refuses (value : ℕ) : Refuses (0x7FFFFFFF < value) (putInterval value) := by
  have hscaled : ∀ v, Spoils (putScaledInterval v value) :=
    fun v ↦ (putScaledInterval_steps v value).spoils
  have hother : Spoils (putOtherInterval value) := (putOtherInterval_steps value).spoils
  unfold putInterval
  by_cases hzero : value = 0
  · rw [if_pos hzero]
    exact (putByte_steps 0).spoils.refuses.congr (by simp [hzero])
  · rw [if_neg hzero]
    exact (Refuses.check _ (Spoils.refuses (((hscaled _).ite (hscaled _)).ite
      ((hscaled _).ite hother)))).congr (by simp)

/-! ### Times -/

/-- A time, counted from the base, that is negative or too long in units of its granularity. -/
def TimeRefused (t : ℕ) : Prop :=
  2 ^ 63 ≤ t ∨
    if t % 10000 = 0 then
      if t % 3600000 = 0 then 2 ^ 21 ≤ t / 3600000 else 2 ^ 29 ≤ t / 10000
    else if t % 1000 = 0 then 2 ^ 37 ≤ t / 1000
    else 2 ^ 45 ≤ t

theorem packTime_refuses (granularity numBytes q : ℕ) :
    Refuses (2 ^ (numBytes * 8 - 3) ≤ q) (packTime granularity numBytes q) := by
  have hput : Refuses False (putLE (q % 0x20 + (q - q % 0x20) * 8 + granularity * 0x20) numBytes) :=
    (putBE_spoils _ _).refuses
  apply (hput.check (.timeTooBig numBytes q)).congr
  simp

theorem putCompressedMillisecondTime_refuses (value : ℤ) :
    Refuses (TimeRefused (word 8 (value - compressedTimestampBaseMs)))
      (putCompressedMillisecondTime value) :=
  (((packTime_refuses 4 3 _).ite (packTime_refuses 3 4 _)).ite
    ((packTime_refuses 2 5 _).ite (packTime_refuses 1 6 _))).check (.timeTooSmall value)

theorem putCompressedNanosecondTime_refuses (value : ℤ) :
    Refuses (2 ^ 63 ≤ word 8 (value - compressedTimestampBaseMs))
      (putCompressedNanosecondTime value) := by
  have htwo : ∀ header number size, Spoils (do putByte header; putLE number size) :=
    fun header number size ↦ ((putByte_steps header).bind fun _ ↦ (putBE_spoils _ _).stores).spoils
  exact (Refuses.check _ (Spoils.refuses ((htwo _ _ _).ite (htwo _ _ _)))).congr (by simp)

/-! ### Alphanumeric -/

/-- A string with a character that cannot be written among the first `room` ones. -/
def BadCharacter (room : ℕ) (str : List ℕ) : Prop := ∃ c ∈ str.take room, 0x40 ≤ alphanumericCode c

theorem reserveBits_stores (ch accumulator : ℕ) (nBitsFree : ℤ) :
    Stores (reserveBits ch accumulator nBitsFree) := by
  unfold reserveBits
  exact ((putBE_spoils _ _).stores.bind fun _ ↦ stores_pure _).ite (stores_pure _)

theorem putCharacters_stores (unassigned : ℕ → ℕ) (str : List ℕ) (accumulator : ℕ) (nBitsFree : ℤ) :
    Stores (putCharacters unassigned str accumulator nBitsFree) := by
  induction str generalizing accumulator nBitsFree with
  | nil => exact (putBE_spoils _ _).stores
  | cons c str ih =>
    simp only [putCharacters]
    apply (reserveBits_stores _ _ _).bind
    intro reserved
    generalize alphanumericCode c = ch
    exact (stores_throw _).ite (ih _ _)

/-- A bad character is found before the first store as long as the accumulator has room. -/
theorem putCharacters_refuses (unassigned : ℕ → ℕ) (str : List ℕ) (accumulator : ℕ) (nBitsFree : ℤ) :
    Refuses (BadCharacter (nBitsFree / 6).toNat str)
      (putCharacters unassigned str accumulator nBitsFree) := by
  induction str generalizing accumulator nBitsFree with
  | nil =>
    apply (putBE_spoils _ _).refuses.congr
    simp [BadCharacter]
  | cons c str ih =>
    by_cases hfull : nBitsFree - 6 < 0
    · have hroom : (nBitsFree / 6).toNat = 0 := by omega
      have hsteps : Steps (putCharacters unassigned (c :: str) accumulator nBitsFree) := by
        simp only [putCharacters, reserveBits, hfull, if_true, bind_assoc, pure_bind]
        apply (putBE_steps _ (by omega)).bind
        intro _
        generalize alphanumericCode c = ch
        exact (stores_throw _).ite (putCharacters_stores _ _ _ _)
      apply hsteps.spoils.refuses.congr
      simp [BadCharacter, hroom]
    · have hroom : (nBitsFree / 6).toNat = ((nBitsFree - 6) / 6).toNat + 1 := by omega
      simp only [putCharacters, reserveBits, hfull, if_false, pure_bind]
      apply ((ih _ (nBitsFree - 6)).check (.invalidCharacter (alphanumericCode c))).congr
      simp [BadCharacter, hroom]

theorem putAlphanumericNull_spoils (fieldSize : ℕ) : Spoils (putAlphanumericNull fieldSize) :=
  putBE_spoils _ _

theorem putAlphanumericOfNull_refuses (fieldSize stringLength : ℕ) :
    Refuses (fieldSize < stringLength) (putAlphanumericOfNull fieldSize stringLength) := by
  apply ((putAlphanumericNull_spoils fieldSize).refuses.check .alphanumericTooLong).congr
  simp

/-- The string is too long for the field, or a bad character is among those that fit in the first
eight bytes. -/
def AlphanumericRefused (fieldSize : ℕ) (str : List ℕ) : Prop :=
  fieldSize < str.length ∨ sizeCodes fieldSize < str.length ∨
    BadCharacter ((64 - sizeBits fieldSize : ℤ) / 6).toNat str

theorem putAlphanumeric_refuses (unassigned : ℕ → ℕ) (fieldSize : ℕ) (str : List ℕ) :
    Refuses (AlphanumericRefused fieldSize str) (putAlphanumeric unassigned fieldSize str) := by
  have hempty : Refuses False (putBE (littleEndian 4 0) ((sizeBits fieldSize + 7) / 8)) := (putBE_spoils _ _).refuses
  have hstr : Refuses (if str.length = 0 then False else
        BadCharacter ((64 - sizeBits fieldSize : ℤ) / 6).toNat str)
      (if str.length = 0 then putBE (littleEndian 4 0) ((sizeBits fieldSize + 7) / 8)
        else putCharacters unassigned str str.length (64 - sizeBits fieldSize)) :=
    hempty.ite (putCharacters_refuses unassigned str str.length (64 - sizeBits fieldSize))
  apply ((hstr.check .alphanumericTooLong).check .alphanumericTooLong).congr
  cases str with
  | nil => simp [AlphanumericRefused, BadCharacter]
  | cons c str => simp [AlphanumericRefused]

theorem writeAlphanumericInt_spoils (size fieldSize : ℕ) (value : ℤ) :
    Spoils (writeAlphanumericInt size fieldSize value) := by
  unfold writeAlphanumericInt
  by_cases hnull : value = -2 ^ (8 * size - 1)
  · rw [if_pos hnull]
    exact putAlphanumericNull_spoils fieldSize
  · rw [if_neg hnull]
    exact putBE_spoils _ _

/-! ### Strings -/

theorem writeUTF8_refuses (data : List UInt8) : Refuses (0xFFFF ≤ data.length) (writeUTF8 data) := by
  have hdata : Steps (do putBE (bigEndian 2 data.length) 2; if data.length ≠ 0 then putBytes data) :=
    (putBE_steps _ (by omega)).bind fun _ ↦ (putBytes_spoils data).stores.ite (stores_pure _)
  apply (hdata.spoils.refuses.check (.stringTooBig data.length)).congr
  simp

theorem writeWideUTF8_refuses (data : List ℕ) :
    Refuses (0xFFFF ≤ data.length) (writeWideUTF8 data) := by
  have hdata : Steps (do
      let w ← get
      putWord 2 0
      if data.length ≠ 0 then
        putWideCharacters data
        storeLength w.dataPtr) :=
    Steps.of_get fun w ↦ (putBE_steps _ (by omega)).bind fun _ ↦
      ((putWideCharacters_stores data).bind fun _ ↦ storeLength_stores _).ite (stores_pure _)
  apply (hdata.spoils.refuses.check (.stringTooBig data.length)).congr
  simp

theorem writeWideAscii_refuses (data : List ℕ) :
    Refuses (0xFFFF ≤ data.length) (writeWideAscii data) := by
  have hdata : Steps (do putWord 2 data.length; putLowBytes data) :=
    (putBE_steps _ (by omega)).bind fun _ ↦ putLowBytes_stores data
  apply (hdata.spoils.refuses.check (.stringTooBig data.length)).congr
  simp

/-! ## All field writes -/

theorem FixedWrite.exec_spoils (write : FixedWrite) : Spoils write.exec := by
  cases write
  all_goals exact putBE_spoils _ _

namespace LeafWrite

/-- The arguments that are refused before anything is stored. -/
def Refused : LeafWrite → Prop
  | pUInt30 value => value ≠ uint30Null ∧ 2 ^ 30 - 2 < value
  | pUInt61 value => value ≠ uint61Null ∧ 2 ^ 61 - 2 < value
  | interval value => 0x7FFFFFFF < value
  | compressedTime value =>
    value ≠ timestampNull ∧ TimeRefused (word 8 (value - compressedTimestampBaseMs))
  | compressedNanoTime value =>
    value ≠ timestampNull ∧
      if fastDivisibleBy value timeNanosPerMillisecond then
        TimeRefused (word 8 (fastDivideBy value timeNanosPerMillisecond - compressedTimestampBaseMs))
      else
        2 ^ 63 ≤ word 8 (value - compressedTimestampBaseMs)
  | alphanumericOfNull fieldSize stringLength => fieldSize < stringLength
  | alphanumeric _ fieldSize str => AlphanumericRefused fieldSize str
  | utf8 data | ascii data => 0xFFFF ≤ data.length
  | wideUTF8 data | wideAscii data => 0xFFFF ≤ data.length
  | _ => False

theorem compressedTime_refuses (value : ℤ) :
    Refuses (compressedTime value).Refused (writeCompressedTime value) := by
  have hnull : Refuses False (putByte 0xA0) := (putByte_steps _).spoils.refuses
  have htime : Refuses (if value = timestampNull then False else
        TimeRefused (word 8 (value - compressedTimestampBaseMs))) (writeCompressedTime value) :=
    hnull.ite (putCompressedMillisecondTime_refuses value)
  apply htime.congr
  by_cases hvalue : value = timestampNull
  · simp [Refused, hvalue]
  · simp [Refused, hvalue]

theorem compressedNanoTime_refuses (value : ℤ) :
    Refuses (compressedNanoTime value).Refused (writeCompressedNanoTime value) := by
  have hnull : Refuses False (putByte 0xA0) := (putByte_steps _).spoils.refuses
  unfold writeCompressedNanoTime
  apply Refuses.congr (hnull.ite ((putCompressedMillisecondTime_refuses _).ite
    (putCompressedNanosecondTime_refuses value)))
  by_cases hvalue : value = timestampNull
  · simp [Refused, hvalue]
  · simp [Refused, hvalue]

theorem exec_refuses (write : LeafWrite) : Refuses write.Refused write.exec := by
  cases write with
  | fixed write => exact write.exec_spoils.refuses
  | pUInt30 value => exact writePUInt_refuses _ _ _ value
  | pUInt61 value => exact writePUInt_refuses _ _ _ value
  | interval value => exact putInterval_refuses value
  | compressedTime value => exact compressedTime_refuses value
  | compressedNanoTime value => exact compressedNanoTime_refuses value
  | decimal value => exact (putDecimal_steps value).spoils.refuses
  | decimalOfPrecision value precision =>
    exact (putDecimalOfPrecision_steps value precision).spoils.refuses
  | alphanumericNull fieldSize => exact (putAlphanumericNull_spoils fieldSize).refuses
  | alphanumericOfNull fieldSize stringLength => exact putAlphanumericOfNull_refuses _ _
  | alphanumeric unassigned fieldSize str => exact putAlphanumeric_refuses unassigned fieldSize str
  | alphanumericInt size fieldSize value =>
    exact (writeAlphanumericInt_spoils size fieldSize value).refuses
  | utf8 data => exact writeUTF8_refuses data
  | wideUTF8 data => exact writeWideUTF8_refuses data
  | ascii data => exact writeUTF8_refuses data
  | wideAscii data => exact writeWideAscii_refuses data
  | binaryArray data => exact (writeBinaryArray_steps data).spoils.refuses

/-- Whatever its outcome, a field write changes nothing but the bytes and the pointer. -/
theorem exec_stores (write : LeafWrite) : Stores write.exec := by
  intro w
  by_cases hrefused : write.Refused
  · apply wp_mono ((exec_refuses write).unchanged hrefused w)
    · exact fun _ _ hfalse ↦ hfalse.elim
    · intro _ w' hw'
      rw [hw']
      exact Grown.refl w
  · exact ((exec_refuses write).spoils hrefused).stores w

end LeafWrite

end DxApi.Writer
