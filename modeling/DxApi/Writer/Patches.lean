import DxApi.Writer.FailedWrites

/-!
# Where the bytes of a field come from

What a field write leaves in the buffer depends on its arguments alone, and not on where the pointer
stands: a `Patch` says which bytes it stores, counted from the pointer, and how far it moves the
pointer. A word is stored whole, so that a patch may store bytes behind its end, and the number of
bytes that an alphanumeric number says it has may be larger than the word, so that bytes in front of
the end may be those that stood there before. `LeafWrite.patch` is the patch of every field write
that can be written at all, and `LeafWrite.exec_puts` says that the write returns exactly if there is
room for it.
-/

namespace DxApi.Writer

open Exec ByteMemory ByteOrder

/-! ## Patches -/

/-- Bytes that are stored at offsets from the pointer, and how far the pointer moves. -/
structure Patch where
  stored : ℕ → Option UInt8
  size : ℕ

namespace Patch

/-- A store of `data`, of which `size` bytes count. -/
def word (data : List UInt8) (size : ℕ) : Patch := ⟨fun offset ↦ data[offset]?, size⟩

def byte (value : UInt8) : Patch := word [value] 1

/-- Bytes that all count. -/
def data (data : List UInt8) : Patch := word data data.length

def empty : Patch := word [] 0

/-- One patch after the other. -/
def append (first second : Patch) : Patch where
  stored offset :=
    if offset < first.size then first.stored offset
    else (second.stored (offset - first.size)).or (first.stored offset)
  size := first.size + second.size

/-- The memory after the patch was stored at a pointer. -/
def apply (patch : Patch) (mem : Memory) (start : ℤ) : Memory := fun address ↦
  if start ≤ address then (patch.stored (address - start).toNat).getD (mem address) else mem address

/-- The writer after the patch was stored. -/
def put (patch : Patch) (w : DataWriter) : DataWriter :=
  { w with mem := patch.apply w.mem w.dataPtr, dataPtr := w.dataPtr + patch.size }

end Patch

/-- One patch after the other, if there are both. -/
def both (first second : Option Patch) : Option Patch := do
  let first ← first
  let second ← second
  return first.append second

/-- The program stores the patch exactly if there is room for it; without a patch it throws. -/
def PutsAt (patch : Option Patch) (program : WriterM Unit) (w : DataWriter) : Prop :=
  wp program
    (fun _ w' ↦ ∃ p, patch = some p ∧ w' = p.put w ∧ w.dataPtr + p.size ≤ w.dataEnd)
    (fun _ _ ↦ ∀ p, patch = some p → w.dataEnd < w.dataPtr + p.size) w

/-- The program stores the patch wherever the pointer is. -/
def Puts (patch : Option Patch) (program : WriterM Unit) : Prop := ∀ w, PutsAt patch program w

/-- The program stores the patch if the pointer is in the buffer. -/
def PutsWithin (patch : Option Patch) (program : WriterM Unit) : Prop :=
  ∀ w, w.dataPtr ≤ w.dataEnd → PutsAt patch program w

variable {first second : Option Patch} {program next : WriterM Unit} {w : DataWriter}

namespace Patch

theorem apply_word (data : List UInt8) (size : ℕ) (mem : Memory) (start : ℤ) :
    (word data size).apply mem start = store mem start data := by
  funext address
  simp only [apply, store, word, List.getD_eq_getElem?_getD]

theorem apply_append (first second : Patch) (mem : Memory) (start : ℤ) :
    (first.append second).apply mem start =
      second.apply (first.apply mem start) (start + first.size) := by
  funext address
  simp only [apply, append]
  by_cases hbefore : start ≤ address
  · by_cases hfirst : (address - start).toNat < first.size
    · have hnot : ¬ start + first.size ≤ address := by omega
      rw [if_pos hbefore, if_pos hfirst, if_neg hnot, if_pos hbefore]
    · have hbehind : start + first.size ≤ address := by omega
      have hoffset : (address - (start + first.size)).toNat = (address - start).toNat - first.size := by
        omega
      rw [if_pos hbefore, if_neg hfirst, if_pos hbehind, if_pos hbefore, hoffset]
      cases second.stored ((address - start).toNat - first.size) <;> rfl
  · have hnot : ¬ start + first.size ≤ address := by omega
    rw [if_neg hbefore, if_neg hnot, if_neg hbefore]

theorem size_append (first second : Patch) :
    ((first.append second).size : ℤ) = first.size + second.size := Nat.cast_add _ _

theorem put_append (first second : Patch) (w : DataWriter) :
    (first.append second).put w = second.put (first.put w) := by
  simp only [put, apply_append, size_append]
  congr 1
  ring

theorem append_assoc (first second third : Patch) :
    (first.append second).append third = first.append (second.append third) := by
  unfold append
  congr 1
  · funext offset
    by_cases hfirst : offset < first.size
    · have hboth : offset < first.size + second.size := by omega
      simp only [if_pos hfirst, if_pos hboth]
    · by_cases hsecond : offset < first.size + second.size
      · have hrest : offset - first.size < second.size := by omega
        simp only [if_neg hfirst, if_pos hsecond, if_pos hrest]
      · have hrest : ¬ offset - first.size < second.size := by omega
        simp only [if_neg hfirst, if_neg hsecond, if_neg hrest, Nat.sub_sub, Option.or_assoc]
  · exact Nat.add_assoc _ _ _

theorem apply_empty (mem : Memory) (start : ℤ) : empty.apply mem start = mem := by
  rw [empty, apply_word]
  funext address
  by_cases hbefore : address < start
  · exact store_of_lt hbefore
  · exact store_of_ge (by simpa using hbefore)

theorem put_empty (w : DataWriter) : empty.put w = w := by
  simp only [put, apply_empty]
  simp [empty, word]

theorem apply_of_lt {patch : Patch} {mem : Memory} {start address : ℤ} (h : address < start) :
    patch.apply mem start address = mem address := if_neg (not_le.mpr h)

theorem apply_of_ge {patch : Patch} {mem : Memory} {start address : ℤ} (h : start ≤ address) :
    patch.apply mem start address = (patch.stored (address - start).toNat).getD (mem address) := if_pos h

/-- The word at the front is stored once more. -/
theorem store_header (old new : List UInt8) (second : Patch) (mem : Memory) (start : ℤ)
    (hlength : old.length = new.length) :
    store (((data old).append second).apply mem start) start new =
      ((data new).append second).apply mem start := by
  have hsize : (data old).size = (data new).size := hlength
  rw [apply_append, apply_append, hsize]
  simp only [data, apply_word]
  change store (second.apply (store mem start old) (start + new.length)) start new =
    second.apply (store mem start new) (start + new.length)
  funext address
  by_cases hfront : address < start + new.length
  · rw [apply_of_lt hfront]
    by_cases hbefore : address < start
    · rw [store_of_lt hbefore, store_of_lt hbefore, apply_of_lt hfront, store_of_lt hbefore]
    · have hindex : (address - start).toNat < new.length := by omega
      rw [store, store, if_pos (not_lt.mp hbefore), if_pos (not_lt.mp hbefore),
        List.getD_eq_getElem _ _ hindex, List.getD_eq_getElem _ _ hindex]
  · have hbehind : start + new.length ≤ address := not_lt.mp hfront
    have hold : store mem start old address = mem address := store_of_ge (by omega)
    rw [store_of_ge hbehind, apply_of_ge hbehind, apply_of_ge hbehind, hold, store_of_ge hbehind]

end Patch

/-! ## Programs that store a patch -/

theorem Puts.within (h : Puts first program) : PutsWithin first program := fun w _ ↦ h w

theorem PutsAt.congr (h : PutsAt first program w) (heq : second = first) : PutsAt second program w := by
  rwa [heq]

theorem putsAt_throw (error : WriteError) : PutsAt none (throw error) w :=
  fun p hnone ↦ absurd hnone (Option.some_ne_none p).symm

theorem putsAt_pure (hw : w.dataPtr ≤ w.dataEnd) : PutsAt (some Patch.empty) (pure ()) w :=
  ⟨Patch.empty, rfl, (Patch.put_empty w).symm, by simpa [Patch.empty, Patch.word] using hw⟩

theorem PutsAt.ite {condition : Prop} [Decidable condition] (h : condition → PutsAt first program w)
    (hnext : ¬ condition → PutsAt second next w) :
    PutsAt (if condition then first else second) (if condition then program else next) w := by
  by_cases hcondition : condition
  · rw [if_pos hcondition, if_pos hcondition]
    exact h hcondition
  · rw [if_neg hcondition, if_neg hcondition]
    exact hnext hcondition

/-- What is stored behind a patch finds the pointer in the buffer. -/
theorem PutsAt.bind (h : PutsAt first program w) (hnext : PutsWithin second next) :
    PutsAt (both first second) (program >>= fun _ ↦ next) w := by
  rw [PutsAt, wp_bind]
  apply wp_mono h
  · rintro - w' ⟨p, hp, hw', hfits⟩
    have hptr : w'.dataPtr = w.dataPtr + p.size := by rw [hw']; rfl
    have hend : w'.dataEnd = w.dataEnd := by rw [hw']; rfl
    apply wp_mono (hnext w' (by omega))
    · rintro - w'' ⟨q, hq, hw'', hfits'⟩
      refine ⟨p.append q, ?_, ?_, ?_⟩
      · rw [hp, hq]
        rfl
      · rw [hw'', hw', Patch.put_append]
      · rw [Patch.size_append]
        omega
    · intro error w'' hover pq hpq
      cases hsecond : second with
      | none =>
        rw [hp, hsecond] at hpq
        cases hpq
      | some q =>
        rw [hp, hsecond] at hpq
        obtain rfl : p.append q = pq := Option.some.inj hpq
        have hbehind := hover q hsecond
        rw [Patch.size_append]
        omega
  · intro error w' hover pq hpq
    cases hfirst : first with
    | none =>
      rw [hfirst] at hpq
      cases hpq
    | some p =>
      cases hsecond : second with
      | none =>
        rw [hfirst, hsecond] at hpq
        cases hpq
      | some q =>
        rw [hfirst, hsecond] at hpq
        obtain rfl : p.append q = pq := Option.some.inj hpq
        have hbehind := hover p hfirst
        rw [Patch.size_append]
        omega

theorem Puts.bind (h : Puts first program) (hnext : PutsWithin second next) :
    Puts (both first second) (program >>= fun _ ↦ next) := fun w ↦ (h w).bind hnext

theorem PutsWithin.bind (h : PutsWithin first program) (hnext : PutsWithin second next) :
    PutsWithin (both first second) (program >>= fun _ ↦ next) := fun w hw ↦ (h w hw).bind hnext

theorem puts_putBE (stored : List UInt8) (size : ℕ) :
    Puts (some (Patch.word stored size)) (putBE stored size) := by
  intro w
  simp only [PutsAt, putBE, onOverflow, wp_bind, wp_get, wp_set, wp_ite, wp_throw, wp_pure]
  constructor
  · intro hover p hp
    obtain rfl : Patch.word stored size = p := Option.some.inj hp
    exact hover
  · intro hfits
    refine ⟨Patch.word stored size, rfl, ?_, not_lt.mp hfits⟩
    rw [Patch.put, Patch.apply_word]
    rfl

theorem puts_putByte (value : UInt8) : Puts (some (Patch.byte value)) (putByte value) := puts_putBE _ _

theorem puts_putBytes (data : List UInt8) : Puts (some (Patch.data data)) (putBytes data) := by
  intro w
  have hover : w.dataEnd < w.dataPtr + data.length → ∀ p, some (Patch.data data) = some p →
      w.dataEnd < w.dataPtr + p.size := by
    intro hover p hp
    obtain rfl : Patch.data data = p := Option.some.inj hp
    exact hover
  simp only [PutsAt, putBytes, onOverflow, wp_bind, wp_get, wp_set, wp_ite, wp_throw]
  refine ⟨fun hbehind ↦ hover (by omega), fun _ ↦ ⟨hover, fun hfits ↦ ?_⟩⟩
  refine ⟨Patch.data data, rfl, ?_, not_lt.mp hfits⟩
  rw [Patch.put, Patch.data, Patch.apply_word]
  rfl

/-! ## Fixed size -/

def wordPatch (size : ℕ) (value : ℤ) : Patch := Patch.word (bigEndian size (word size value)) size

theorem puts_putWord (size : ℕ) (value : ℤ) : Puts (some (wordPatch size value)) (putWord size value) :=
  puts_putBE _ _

def FixedWrite.patch : FixedWrite → Patch
  | byte value | int8 value | enum8 value | boolean value => wordPatch 1 value
  | uint16 value | int16 value | enum16 value | wChar value => wordPatch 2 value
  | uint32 value | int32 value | float32 value | timeOfDay value | enum32 value => wordPatch 4 value
  | uint64 value | int64 value | float64 value | timestamp value | enum64 value => wordPatch 8 value
  | uint40 value => Patch.word (bigEndian 8 (word 8 (value * 2 ^ 24))) 5
  | int48 value => Patch.word (bigEndian 8 (word 8 (value * 2 ^ 16))) 6
  | binaryArrayNull => wordPatch 1 1
  | arrayNull | objectNull => wordPatch 1 0
  | utf8Null => wordPatch 2 0xFFFF

theorem FixedWrite.exec_puts (write : FixedWrite) : Puts (some write.patch) write.exec := by
  cases write <;> exact puts_putBE _ _

/-! ## Packed integers -/

/-- A number without its leading zero bytes, behind a header in which their number is. -/
def variablePatch (size value : ℕ) (header : ℕ → ℕ) : Patch :=
  Patch.word (UInt8.ofNat (header ((Nat.size value + 7) / 8)) :: littleEndian size value)
    ((Nat.size value + 7) / 8 + 1)

theorem store_head (mem : Memory) (start : ℤ) (old new : UInt8) (rest : List UInt8) :
    store (store mem start (old :: rest)) start [new] = store mem start (new :: rest) := by
  funext address
  by_cases hbefore : address < start
  · rw [store_of_lt hbefore, store_of_lt hbefore, store_of_lt hbefore]
  · by_cases hhead : address = start
    · rw [hhead]
      simp [store]
    · have hbehind : start + ([new] : List UInt8).length ≤ address := by
        simp only [List.length_singleton]
        omega
      have hindex : (address - start).toNat = (address - (start + 1)).toNat + 1 := by omega
      rw [store_of_ge hbehind, store, store, if_pos (by omega), if_pos (by omega), hindex,
        List.getD_cons_succ, List.getD_cons_succ]

theorem puts_variable (size value : ℕ) (header : ℕ → ℕ) :
    Puts (some (variablePatch size value header)) (do
      let (headerPtr, numBytes) ← writeVariableLengthInt size value
      storeByte headerPtr (header numBytes)) := by
  intro w
  have hput := puts_putBE (0 :: littleEndian size value) ((Nat.size value + 7) / 8 + 1) w
  unfold PutsAt at hput ⊢
  simp only [writeVariableLengthInt, storeByte, wp_bind, wp_get, wp_pure, wp_modify]
  apply wp_mono hput
  · rintro - w' ⟨p, hp, hw', hfits⟩
    obtain rfl : Patch.word _ _ = p := Option.some.inj hp
    refine ⟨_, rfl, ?_, hfits⟩
    rw [hw', Patch.put, Patch.put, variablePatch, Patch.apply_word, Patch.apply_word, store_head]
    rfl
  · intro error w' hover p hp
    obtain rfl : variablePatch _ _ _ = p := Option.some.inj hp
    exact hover (Patch.word (0 :: littleEndian size value) _) rfl

/-- `writePackedUInt`. -/
def packedPatch (size value : ℕ) : Patch :=
  variablePatch size (value / (0x100 / size)) fun numBytes ↦
    value % (0x100 / size) ||| numBytes * (0x100 / size)

theorem puts_writePackedUInt (size value : ℕ) :
    Puts (some (packedPatch size value)) (writePackedUInt size value) :=
  puts_variable size (value / (0x100 / size)) _

def pUIntPatch (size nullValue maxValue value : ℕ) : Option Patch :=
  if value = nullValue then some (Patch.byte 0)
  else if maxValue < value then none
  else some (packedPatch size (value + 1))

theorem puts_writePUInt (size nullValue maxValue value : ℕ) :
    Puts (pUIntPatch size nullValue maxValue value) (writePUInt size nullValue maxValue value) := fun w ↦
  .ite (fun _ ↦ puts_putByte 0 w) fun _ ↦
    .ite (fun _ ↦ putsAt_throw _) fun _ ↦ puts_writePackedUInt size (value + 1) w

def otherIntervalPatch (value : ℕ) : Option Patch := both (some (Patch.byte 0xC0)) (some (wordPatch 4 value))

theorem puts_putOtherInterval (value : ℕ) : Puts (otherIntervalPatch value) (putOtherInterval value) :=
  (puts_putByte 0xC0).bind (puts_putWord 4 value).within

def scaledIntervalPatch (v value : ℕ) : Option Patch :=
  if v < 0x40 then some (Patch.byte (UInt8.ofNat v)) else otherIntervalPatch value

theorem puts_putScaledInterval (v value : ℕ) :
    Puts (scaledIntervalPatch v value) (putScaledInterval v value) := fun w ↦
  .ite (fun _ ↦ puts_putByte _ w) fun _ ↦ puts_putOtherInterval value w

def intervalPatch (value : ℕ) : Option Patch :=
  if value = 0 then some (Patch.byte 0)
  else if 0x7FFFFFFF < value then none
  else if value % 60000 = 0 then
    if value % 3600000 = 0 then scaledIntervalPatch (value / 3600000) value
    else scaledIntervalPatch (value / 60000) value
  else if value % 1000 = 0 then scaledIntervalPatch (value / 1000) value
  else otherIntervalPatch value

theorem puts_putInterval (value : ℕ) : Puts (intervalPatch value) (putInterval value) := fun w ↦
  .ite (fun _ ↦ puts_putByte 0 w) fun _ ↦
    .ite (fun _ ↦ putsAt_throw _) fun _ ↦
      .ite
        (fun _ ↦ .ite (fun _ ↦ puts_putScaledInterval _ value w) fun _ ↦ puts_putScaledInterval _ value w)
        fun _ ↦ .ite (fun _ ↦ puts_putScaledInterval _ value w) fun _ ↦ puts_putOtherInterval value w

/-! ## Times -/

/-- `PACK_TIME`. -/
def packTimePatch (granularity numBytes q : ℕ) : Option Patch :=
  if 2 ^ (numBytes * 8 - 3) ≤ q then none
  else some (Patch.word
    (littleEndian 8 (q % 0x20 + (q - q % 0x20) * 8 + granularity * 0x20)) numBytes)

theorem puts_packTime (granularity numBytes q : ℕ) :
    Puts (packTimePatch granularity numBytes q) (packTime granularity numBytes q) := fun w ↦
  .ite (fun _ ↦ putsAt_throw _) fun _ ↦ puts_putBE _ _ w

def millisecondTimePatch (value : ℤ) : Option Patch :=
  let t := word 8 (value - compressedTimestampBaseMs)
  if 2 ^ 63 ≤ t then none
  else if t % 10000 = 0 then
    if t % 3600000 = 0 then packTimePatch 4 3 (t / 3600000) else packTimePatch 3 4 (t / 10000)
  else if t % 1000 = 0 then packTimePatch 2 5 (t / 1000)
  else packTimePatch 1 6 t

theorem puts_putCompressedMillisecondTime (value : ℤ) :
    Puts (millisecondTimePatch value) (putCompressedMillisecondTime value) := fun w ↦
  .ite (fun _ ↦ putsAt_throw _) fun _ ↦
    .ite (fun _ ↦ .ite (fun _ ↦ puts_packTime 4 3 _ w) fun _ ↦ puts_packTime 3 4 _ w)
      fun _ ↦ .ite (fun _ ↦ puts_packTime 2 5 _ w) fun _ ↦ puts_packTime 1 6 _ w

def nanosecondTimePatch (value : ℤ) : Option Patch :=
  let t := word 8 (value - compressedTimestampBaseMs)
  if 2 ^ 63 ≤ t then none
  else if 2 ^ 61 ≤ t then
    both (some (Patch.byte (UInt8.ofNat (7 * 0x20 + t % 0x20))))
      (some (Patch.word (littleEndian 8 (t / 0x20)) 8))
  else
    both (some (Patch.byte (UInt8.ofNat (6 * 0x20 + t % 0x20))))
      (some (Patch.word (littleEndian 8 (t / 0x20)) 7))

theorem puts_putCompressedNanosecondTime (value : ℤ) :
    Puts (nanosecondTimePatch value) (putCompressedNanosecondTime value) := fun w ↦
  .ite (fun _ ↦ putsAt_throw _) fun _ ↦
    .ite (fun _ ↦ ((puts_putByte _).bind (puts_putBE _ _).within) w)
      fun _ ↦ ((puts_putByte _).bind (puts_putBE _ _).within) w

def compressedTimePatch (value : ℤ) : Option Patch :=
  if value = timestampNull then some (Patch.byte 0xA0) else millisecondTimePatch value

theorem puts_writeCompressedTime (value : ℤ) :
    Puts (compressedTimePatch value) (writeCompressedTime value) := fun w ↦
  .ite (fun _ ↦ puts_putByte _ w) fun _ ↦ puts_putCompressedMillisecondTime value w

def compressedNanoTimePatch (value : ℤ) : Option Patch :=
  if value = timestampNull then some (Patch.byte 0xA0)
  else if fastDivisibleBy value timeNanosPerMillisecond then
    millisecondTimePatch (fastDivideBy value timeNanosPerMillisecond)
  else nanosecondTimePatch value

theorem puts_writeCompressedNanoTime (value : ℤ) :
    Puts (compressedNanoTimePatch value) (writeCompressedNanoTime value) := fun w ↦
  .ite (fun _ ↦ puts_putByte _ w) fun _ ↦
    .ite (fun _ ↦ puts_putCompressedMillisecondTime _ w) fun _ ↦ puts_putCompressedNanosecondTime value w

/-! ## Decimals -/

def compressedDecimalPatch (isNegative : Bool) (mantissa exp : ℕ) : Patch :=
  variablePatch 8 mantissa fun numBytes ↦ isNegative.toNat * 0x80 + numBytes * 0x10 + exp

theorem puts_putCompressedDecimal (isNegative : Bool) (mantissa exp : ℕ) :
    Puts (some (compressedDecimalPatch isNegative mantissa exp))
      (putCompressedDecimal isNegative mantissa exp) :=
  puts_variable 8 mantissa _

def uncompressedDecimalPatch (value : Float) : Option Patch :=
  both (some (Patch.byte 0x0F)) (some (wordPatch 8 value.toBits.toNat))

theorem puts_putUncompressedDecimal (value : Float) :
    Puts (uncompressedDecimalPatch value) (putUncompressedDecimal value) :=
  (puts_putByte 0x0F).bind (puts_putWord 8 _).within

def decimalPatch (value : Float) : Option Patch :=
  match specialDecimal value with
  | some byte => some (Patch.byte byte)
  | none =>
    match decimalFraction value.abs 15 0 with
    | some (mantissa, exp) => some (compressedDecimalPatch (value < 0) mantissa exp)
    | none => uncompressedDecimalPatch value

theorem puts_putDecimal (value : Float) : Puts (decimalPatch value) (putDecimal value) := by
  unfold decimalPatch putDecimal
  cases specialDecimal value with
  | some byte => exact puts_putByte byte
  | none =>
    cases decimalFraction value.abs 15 0 with
    | some fraction => exact puts_putCompressedDecimal _ _ _
    | none => exact puts_putUncompressedDecimal value

def roundedDecimalPatch (value : Float) (mantissa exp : ℕ) : Option Patch :=
  if mantissa / 2 ^ 56 ≠ 0 then
    both (uncompressedDecimalPatch value) (some (compressedDecimalPatch (value < 0) mantissa exp))
  else some (compressedDecimalPatch (value < 0) mantissa exp)

theorem puts_putRoundedDecimal (value : Float) (mantissa exp : ℕ) :
    Puts (roundedDecimalPatch value mantissa exp) (putRoundedDecimal value mantissa exp) := fun w ↦
  .ite
    (fun _ ↦ (puts_putUncompressedDecimal value).bind (puts_putCompressedDecimal _ _ _).within w)
    fun _ ↦ puts_putCompressedDecimal _ _ _ w

def decimalOfPrecisionPatch (value : Float) (precision : ℕ) : Option Patch :=
  match specialDecimal value with
  | some byte => some (Patch.byte byte)
  | none =>
    let lv := (value.abs * pow10d precision + 0.5).floor.toUInt64.toNat
    roundedDecimalPatch value (stripZeros precision lv).1 (stripZeros precision lv).2

theorem puts_putDecimalOfPrecision (value : Float) (precision : ℕ) :
    Puts (decimalOfPrecisionPatch value precision) (putDecimalOfPrecision value precision) := by
  unfold decimalOfPrecisionPatch putDecimalOfPrecision
  cases specialDecimal value with
  | some byte => exact puts_putByte byte
  | none => exact puts_putRoundedDecimal value _ _

/-! ## Alphanumeric -/

def alphanumericNullPatch (fieldSize : ℕ) : Patch :=
  Patch.word (bigEndian 4 (sizeCodes fieldSize * 2 ^ (32 - sizeBits fieldSize)))
    ((sizeBits fieldSize + 7) / 8)

theorem puts_putAlphanumericNull (fieldSize : ℕ) :
    Puts (some (alphanumericNullPatch fieldSize)) (putAlphanumericNull fieldSize) := puts_putBE _ _

def alphanumericOfNullPatch (fieldSize stringLength : ℕ) : Option Patch :=
  if fieldSize < stringLength then none else some (alphanumericNullPatch fieldSize)

theorem puts_putAlphanumericOfNull (fieldSize stringLength : ℕ) :
    Puts (alphanumericOfNullPatch fieldSize stringLength)
      (putAlphanumericOfNull fieldSize stringLength) := fun w ↦
  .ite (fun _ ↦ putsAt_throw _) fun _ ↦ puts_putAlphanumericNull fieldSize w

/-- The loop of `putAlphanumeric`. -/
def charactersPatch (unassigned : ℕ → ℕ) : List ℕ → ℕ → ℤ → Option Patch
  | [], accumulator, nBitsFree =>
    some (Patch.word (bigEndian 8 (accumulator <<< nBitsFree.toNat)) ((71 - nBitsFree).toNat / 8))
  | c :: str, accumulator, nBitsFree =>
    let ch := alphanumericCode c
    if nBitsFree - 6 < 0 then
      both
        (some (Patch.word (bigEndian 8 (accumulator <<< (nBitsFree - 6 + 6).toNat |||
          unassigned str.length >>> (-(nBitsFree - 6)).toNat)) 8))
        (if 0x40 ≤ ch then none
        else charactersPatch unassigned str ((0 <<< 6 ||| ch) % 2 ^ 64) (nBitsFree - 6 + 64))
    else if 0x40 ≤ ch then none
    else charactersPatch unassigned str ((accumulator <<< 6 ||| ch) % 2 ^ 64) (nBitsFree - 6)

theorem puts_putCharacters (unassigned : ℕ → ℕ) (str : List ℕ) (accumulator : ℕ) (nBitsFree : ℤ) :
    Puts (charactersPatch unassigned str accumulator nBitsFree)
      (putCharacters unassigned str accumulator nBitsFree) := by
  induction str generalizing accumulator nBitsFree with
  | nil => exact puts_putBE _ _
  | cons c str ih =>
    intro w
    by_cases hfull : nBitsFree - 6 < 0
    · simp only [charactersPatch, putCharacters, reserveBits, if_pos hfull, bind_assoc, pure_bind]
      generalize alphanumericCode c = ch
      exact (puts_putBE _ _).bind (Puts.within fun w' ↦
        .ite (fun _ ↦ putsAt_throw _) fun _ ↦ ih _ _ w') w
    · simp only [charactersPatch, putCharacters, reserveBits, if_neg hfull, pure_bind]
      generalize alphanumericCode c = ch
      exact .ite (fun _ ↦ putsAt_throw _) fun _ ↦ ih _ _ w

def alphanumericPatch (unassigned : ℕ → ℕ) (fieldSize : ℕ) (str : List ℕ) : Option Patch :=
  if fieldSize < str.length then none
  else if sizeCodes fieldSize < str.length then none
  else if str.length = 0 then some (Patch.word (littleEndian 4 0) ((sizeBits fieldSize + 7) / 8))
  else charactersPatch unassigned str str.length (64 - sizeBits fieldSize)

theorem puts_putAlphanumeric (unassigned : ℕ → ℕ) (fieldSize : ℕ) (str : List ℕ) :
    Puts (alphanumericPatch unassigned fieldSize str) (putAlphanumeric unassigned fieldSize str) :=
  fun w ↦
  .ite (fun _ ↦ putsAt_throw _) fun _ ↦
    .ite (fun _ ↦ putsAt_throw _) fun _ ↦
      .ite (fun _ ↦ puts_putBE _ _ w) fun _ ↦ puts_putCharacters unassigned str _ _ w

/-- The length in the top bits says how many bytes of the word count, which may be more than it
has. -/
def alphanumericIntPatch (size fieldSize : ℕ) (value : ℤ) : Patch :=
  if value = -2 ^ (8 * size - 1) then alphanumericNullPatch fieldSize
  else Patch.word (bigEndian size (word size value))
    ((sizeBits fieldSize + 6 * (word size value / 2 ^ (8 * size - sizeBits fieldSize)) + 7) / 8)

theorem puts_writeAlphanumericInt (size fieldSize : ℕ) (value : ℤ) :
    Puts (some (alphanumericIntPatch size fieldSize value))
      (writeAlphanumericInt size fieldSize value) := by
  intro w
  unfold alphanumericIntPatch writeAlphanumericInt
  by_cases hnull : value = -2 ^ (8 * size - 1)
  · rw [if_pos hnull, if_pos hnull]
    exact puts_putAlphanumericNull fieldSize w
  · rw [if_neg hnull, if_neg hnull]
    exact puts_putBE _ _ w

/-! ## Strings and binary data -/

def utf8Patch (data : List UInt8) : Option Patch :=
  if 0xFFFF ≤ data.length then none
  else if data.length ≠ 0 then
    both (some (Patch.word (bigEndian 2 data.length) 2)) (some (Patch.data data))
  else some (Patch.word (bigEndian 2 data.length) 2)

theorem puts_writeUTF8 (data : List UInt8) : Puts (utf8Patch data) (writeUTF8 data) := by
  intro w
  refine .ite (fun _ ↦ putsAt_throw _) fun _ ↦ ?_
  by_cases hempty : data.length ≠ 0
  · simp only [if_pos hempty]
    exact (puts_putBE _ _).bind (puts_putBytes data).within w
  · simp only [if_neg hempty, bind_pure_unit]
    exact puts_putBE _ _ w

def codeUnitPatch (c : ℕ) : Option Patch :=
  if c < 0x80 then some (Patch.byte (UInt8.ofNat c))
  else if c < 0x800 then
    both (some (Patch.byte (UInt8.ofNat (0xC0 ||| (c >>> 6) &&& 0x1F))))
      (some (Patch.byte (UInt8.ofNat (0x80 ||| c &&& 0x3F))))
  else
    both (some (Patch.byte (UInt8.ofNat (0xE0 ||| (c >>> 12) &&& 0x0F))))
      (both (some (Patch.byte (UInt8.ofNat (0x80 ||| (c >>> 6) &&& 0x3F))))
        (some (Patch.byte (UInt8.ofNat (0x80 ||| c &&& 0x3F)))))

theorem puts_putCodeUnit (c : ℕ) : Puts (codeUnitPatch c) (putCodeUnit c) := fun w ↦
  .ite (fun _ ↦ puts_putByte _ w) fun _ ↦
    .ite (fun _ ↦ (puts_putByte _).bind (puts_putByte _).within w)
      fun _ ↦ (puts_putByte _).bind ((puts_putByte _).bind (puts_putByte _).within).within w

def surrogatesPatch (c cc : ℕ) : Option Patch :=
  let c := word 4 (c * 2 ^ 10 + (0x10000 - 0xD800 * 2 ^ 10 - 0xDC00 : ℤ) + cc)
  both (some (Patch.byte (UInt8.ofNat (0xF0 ||| (c >>> 18) &&& 0x07))))
    (both (some (Patch.byte (UInt8.ofNat (0x80 ||| (c >>> 12) &&& 0x3F))))
      (both (some (Patch.byte (UInt8.ofNat (0x80 ||| (c >>> 6) &&& 0x3F))))
        (some (Patch.byte (UInt8.ofNat (0x80 ||| c &&& 0x3F))))))

theorem puts_putSurrogates (c cc : ℕ) : Puts (surrogatesPatch c cc) (putSurrogates c cc) :=
  (puts_putByte _).bind ((puts_putByte _).bind
    ((puts_putByte _).bind (puts_putByte _).within).within).within

/-- The loop of `writeUTF8(const wchar_t *)`. -/
def wideCharactersPatch : List ℕ → Option Patch
  | [] => some Patch.empty
  | c :: data =>
    if c < 0x800 ∨ c &&& 0xF800 ≠ 0xD800 then both (codeUnitPatch c) (wideCharactersPatch data)
    else if c &&& 0x400 ≠ 0 then none
    else
      match data with
      | [] => none
      | cc :: data =>
        if cc &&& 0xFC00 ≠ 0xDC00 then none
        else both (surrogatesPatch c cc) (wideCharactersPatch data)

theorem puts_putWideCharacters (data : List ℕ) :
    PutsWithin (wideCharactersPatch data) (putWideCharacters data) := by
  induction data using putWideCharacters.induct with
  | case1 => exact fun w hw ↦ putsAt_pure hw
  | case2 c data hunit ih =>
    rw [wideCharactersPatch.eq_def, putWideCharacters.eq_def]
    simp only [if_pos hunit]
    exact ((puts_putCodeUnit c).bind ih).within
  | case3 c data hsurrogate hlow =>
    rw [wideCharactersPatch.eq_def, putWideCharacters.eq_def]
    simp only [if_neg hsurrogate, if_pos hlow]
    exact fun w _ ↦ putsAt_throw _
  | case4 c hsurrogate hhigh =>
    rw [wideCharactersPatch.eq_def, putWideCharacters.eq_def]
    simp only [if_neg hsurrogate, if_neg hhigh]
    exact fun w _ ↦ putsAt_throw _
  | case5 c hsurrogate hhigh cc data hother =>
    rw [wideCharactersPatch.eq_def, putWideCharacters.eq_def]
    simp only [if_neg hsurrogate, if_neg hhigh, if_pos hother]
    exact fun w _ ↦ putsAt_throw _
  | case6 c hsurrogate hhigh cc data hpair ih =>
    rw [wideCharactersPatch.eq_def, putWideCharacters.eq_def]
    simp only [if_neg hsurrogate, if_neg hhigh, if_neg hpair]
    exact ((puts_putSurrogates c cc).bind ih).within

/-- The size of a patch in two bytes in front of it. -/
def withLength (patch : Patch) : Option Patch :=
  if 0xFFFF ≤ patch.size then none else some ((Patch.data (bigEndian 2 patch.size)).append patch)

theorem size_withLength {patch p : Patch} (h : withLength patch = some p) : p.size = 2 + patch.size := by
  unfold withLength at h
  by_cases hlong : 0xFFFF ≤ patch.size
  · rw [if_pos hlong] at h
    cases h
  · rw [if_neg hlong] at h
    rw [← Option.some.inj h]
    rfl

def wideUTF8Patch (data : List ℕ) : Option Patch :=
  if 0xFFFF ≤ data.length then none
  else if data.length ≠ 0 then (wideCharactersPatch data).bind withLength
  else some (wordPatch 2 0)

/-- The length is stored over the two bytes that were left free for it. -/
theorem storeLength_puts (patch : Patch) (w : DataWriter) (hfits : w.dataPtr + (2 + patch.size : ℕ) ≤ w.dataEnd) :
    wp (storeLength w.dataPtr)
      (fun _ w' ↦ ∃ p, withLength patch = some p ∧ w' = p.put w ∧ w.dataPtr + p.size ≤ w.dataEnd)
      (fun _ _ ↦ withLength patch = none) (((wordPatch 2 0).append patch).put w) := by
  have hlength : (((wordPatch 2 0).append patch).put w).dataPtr - w.dataPtr - 2 = patch.size := by
    simp only [Patch.put, Patch.size_append, wordPatch, Patch.word]
    push_cast
    ring
  have hstored := Patch.store_header (bigEndian 2 (word 2 0)) (bigEndian 2 patch.size) patch w.mem
    w.dataPtr (by rw [length_bigEndian, length_bigEndian])
  simp only [storeLength, wp_bind, wp_get, hlength, Int.toNat_natCast, wp_ite, wp_throw, wp_modify]
  unfold withLength
  constructor
  · intro hlong
    rw [if_pos hlong]
  · intro hshort
    refine ⟨(Patch.data (bigEndian 2 patch.size)).append patch, if_neg hshort, ?_, hfits⟩
    simp only [Patch.put]
    rw [← hstored]
    rfl

theorem puts_writeWideUTF8 (data : List ℕ) : Puts (wideUTF8Patch data) (writeWideUTF8 data) := by
  intro w
  refine .ite (fun _ ↦ putsAt_throw _) fun _ ↦ ?_
  by_cases hempty : data.length ≠ 0
  · have hchars := (puts_putWord 2 0).bind (puts_putWideCharacters data) w
    unfold PutsAt at hchars ⊢
    simp only [if_pos hempty, wp_bind, wp_get] at hchars ⊢
    have hover : (∀ p, both (some (wordPatch 2 0)) (wideCharactersPatch data) = some p →
        w.dataEnd < w.dataPtr + p.size) → ∀ p, (wideCharactersPatch data).bind withLength = some p →
        w.dataEnd < w.dataPtr + p.size := by
      intro hover p hp
      obtain ⟨q, hq, hp⟩ := Option.bind_eq_some_iff.mp hp
      have hbehind := hover ((wordPatch 2 0).append q) (by rw [hq]; rfl)
      rwa [size_withLength hp]
    apply wp_mono hchars
    · intro _ w' hw'
      apply wp_mono hw'
      · rintro - w'' ⟨p, hp, hw'', hfits⟩
        cases hwide : wideCharactersPatch data with
        | none =>
          rw [hwide] at hp
          cases hp
        | some q =>
          rw [hwide] at hp
          obtain rfl : (wordPatch 2 0).append q = p := Option.some.inj hp
          rw [hw'']
          apply wp_mono (storeLength_puts q w hfits)
          · exact fun _ _ hput ↦ hput
          · intro error w' hnone p hp
            rw [Option.bind_some, hnone] at hp
            cases hp
      · exact fun _ _ ↦ hover
    · exact fun _ _ ↦ hover
  · have hzero := puts_putWord 2 0 w
    unfold PutsAt at hzero ⊢
    simp only [if_neg hempty, wp_bind, wp_get, wp_pure]
    exact hzero

def lowBytesPatch : List ℕ → Option Patch
  | [] => some Patch.empty
  | c :: data => both (some (Patch.byte (UInt8.ofNat c))) (lowBytesPatch data)

theorem puts_putLowBytes (data : List ℕ) : PutsWithin (lowBytesPatch data) (putLowBytes data) := by
  induction data with
  | nil => exact fun w hw ↦ putsAt_pure hw
  | cons c data ih => exact ((puts_putByte _).bind ih).within

def wideAsciiPatch (data : List ℕ) : Option Patch :=
  if 0xFFFF ≤ data.length then none
  else both (some (wordPatch 2 data.length)) (lowBytesPatch data)

theorem puts_writeWideAscii (data : List ℕ) : Puts (wideAsciiPatch data) (writeWideAscii data) := fun w ↦
  .ite (fun _ ↦ putsAt_throw _) fun _ ↦ (puts_putWord 2 _).bind (puts_putLowBytes data) w

/-- `reserveBytes` and the copy to the bytes that were reserved. -/
theorem puts_reserveBytes (data : List UInt8) :
    Puts (some (Patch.data data)) (do
      let pStart ← reserveBytes data.length
      modify fun w ↦ { w with mem := store w.mem pStart data }) := by
  intro w
  have hover : w.dataEnd < w.dataPtr + data.length → ∀ p, some (Patch.data data) = some p →
      w.dataEnd < w.dataPtr + p.size := by
    intro hover p hp
    obtain rfl : Patch.data data = p := Option.some.inj hp
    exact hover
  simp only [PutsAt, reserveBytes, wp_bind, wp_get, wp_set, wp_ite, wp_throw, wp_pure, wp_modify]
  refine ⟨fun hbehind ↦ ⟨fun _ ↦ hover hbehind, fun _ ↦ hover hbehind⟩, fun hfits ↦ ?_⟩
  refine ⟨Patch.data data, rfl, ?_, not_lt.mp hfits⟩
  rw [Patch.put, Patch.data, Patch.apply_word]
  rfl

def binaryArrayPatch (data : List UInt8) : Option Patch :=
  both (some (Patch.byte 0))
    (both (some (packedPatch 4 (data.length % 2 ^ 32))) (some (Patch.data data)))

theorem puts_writeBinaryArray (data : List UInt8) :
    Puts (binaryArrayPatch data) (writeBinaryArray data) := by
  simp only [writeBinaryArray, writeBinaryArrayEx, bind_assoc]
  exact (puts_putByte 0).bind
    ((puts_writePackedUInt 4 _).bind (puts_reserveBytes data).within).within

/-! ## All field writes -/

namespace LeafWrite

/-- What a field write stores; none if its argument cannot be written. -/
def patch : LeafWrite → Option Patch
  | fixed write => some write.patch
  | pUInt30 value => pUIntPatch 4 uint30Null (2 ^ 30 - 2) value
  | pUInt61 value => pUIntPatch 8 uint61Null (2 ^ 61 - 2) value
  | interval value => intervalPatch value
  | compressedTime value => compressedTimePatch value
  | compressedNanoTime value => compressedNanoTimePatch value
  | decimal value => decimalPatch value
  | decimalOfPrecision value precision => decimalOfPrecisionPatch value precision
  | alphanumericNull fieldSize => some (alphanumericNullPatch fieldSize)
  | alphanumericOfNull fieldSize stringLength => alphanumericOfNullPatch fieldSize stringLength
  | alphanumeric unassigned fieldSize str => alphanumericPatch unassigned fieldSize str
  | alphanumericInt size fieldSize value => some (alphanumericIntPatch size fieldSize value)
  | utf8 data => utf8Patch data
  | wideUTF8 data => wideUTF8Patch data
  | ascii data => utf8Patch data
  | wideAscii data => wideAsciiPatch data
  | binaryArray data => binaryArrayPatch data

/-- A field write returns exactly if there is room for its patch. -/
theorem exec_puts (write : LeafWrite) : Puts write.patch write.exec := by
  cases write with
  | fixed write => exact write.exec_puts
  | pUInt30 value => exact puts_writePUInt 4 uint30Null (2 ^ 30 - 2) value
  | pUInt61 value => exact puts_writePUInt 8 uint61Null (2 ^ 61 - 2) value
  | interval value => exact puts_putInterval value
  | compressedTime value => exact puts_writeCompressedTime value
  | compressedNanoTime value => exact puts_writeCompressedNanoTime value
  | decimal value => exact puts_putDecimal value
  | decimalOfPrecision value precision => exact puts_putDecimalOfPrecision value precision
  | alphanumericNull fieldSize => exact puts_putAlphanumericNull fieldSize
  | alphanumericOfNull fieldSize stringLength =>
    exact puts_putAlphanumericOfNull fieldSize stringLength
  | alphanumeric unassigned fieldSize str => exact puts_putAlphanumeric unassigned fieldSize str
  | alphanumericInt size fieldSize value => exact puts_writeAlphanumericInt size fieldSize value
  | utf8 data => exact puts_writeUTF8 data
  | wideUTF8 data => exact puts_writeWideUTF8 data
  | ascii data => exact puts_writeUTF8 data
  | wideAscii data => exact puts_writeWideAscii data
  | binaryArray data => exact puts_writeBinaryArray data

end LeafWrite

end DxApi.Writer
