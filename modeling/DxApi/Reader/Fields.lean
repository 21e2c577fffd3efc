import DxApi.Reader.Times

/-!
# Reading and skipping fields

For every kind of field there is a call that reads it, and for most kinds one that skips it. At the
end of the content a field reads as null and is skipped without moving. A field that is longer than
its first bytes says in them how much more there is, and every kind has its own way to say it, once
in the call that reads and once in the call that skips.

Words of an unsigned type are natural numbers, those of a signed type integers, and floating-point
numbers are read as their bits. A string is the list of its characters.
-/

namespace DxApi.Reader

open Exec ByteOrder Writer

/-! ## Fixed size -/

/-- `loadBE` of a signed type. -/
def loadSigned (cls : ReaderClass) (size : ℕ) : ReaderM ℤ := return signed size (← loadBE cls size)

def readUInt8 (cls : ReaderClass) : ReaderM ℕ := unlessEnd 0x80 (getByte cls)
def readInt8 (cls : ReaderClass) : ReaderM ℤ := unlessEnd (-0x80) (loadSigned cls 1)
def readInt16 (cls : ReaderClass) : ReaderM ℤ := unlessEnd (-2 ^ 15) (loadSigned cls 2)
def readInt32 (cls : ReaderClass) : ReaderM ℤ := unlessEnd (-2 ^ 31) (loadSigned cls 4)
def readInt48 (cls : ReaderClass) : ReaderM ℤ := unlessEnd (-2 ^ 47) (loadSigned cls 6)
def readInt64 (cls : ReaderClass) : ReaderM ℤ := unlessEnd (-2 ^ 63) (loadSigned cls 8)

/-- `float64null`. -/
def float64Null : ℕ := 0x7FF8000000000000

/-- `float32null`. -/
def float32Null : ℕ := 0x7FC00000

def readFloat64 (cls : ReaderClass) : ReaderM ℕ := unlessEnd float64Null (loadBE cls 8)
def readFloat32 (cls : ReaderClass) : ReaderM ℕ := unlessEnd float32Null (loadBE cls 4)
def readTimestamp (cls : ReaderClass) : ReaderM ℤ := unlessEnd timestampNull (loadSigned cls 8)
def readTimeOfDay (cls : ReaderClass) : ReaderM ℤ := unlessEnd (-1) (loadSigned cls 4)
def readEnum8 (cls : ReaderClass) : ReaderM ℤ := unlessEnd (-1) (loadSigned cls 1)
def readEnum16 (cls : ReaderClass) : ReaderM ℤ := unlessEnd (-1) (loadSigned cls 2)
def readEnum32 (cls : ReaderClass) : ReaderM ℤ := unlessEnd (-1) (loadSigned cls 4)
def readEnum64 (cls : ReaderClass) : ReaderM ℤ := unlessEnd (-1) (loadSigned cls 8)

/-- `readBoolean` does not ask whether the content has ended. -/
def readBoolean (cls : ReaderClass) : ReaderM Bool := do return (← getByte cls) = 1

/-- `BOOL_NULL` is -1 in the type of the result. -/
def readNullableBooleanInt8 (cls : ReaderClass) : ReaderM ℤ := unlessEnd (-1) (loadSigned cls 1)
def readWChar (cls : ReaderClass) : ReaderM ℕ := unlessEnd 0 (getUInt16 cls)

/-- Nothing is passed over at the end of the content. -/
def skipBytes (cls : ReaderClass) (size : ℕ) : ReaderM Unit := unlessEnd () (skip cls size)

def skipInt8 (cls : ReaderClass) : ReaderM Unit := skipBytes cls 1
def skipInt16 (cls : ReaderClass) : ReaderM Unit := skipBytes cls 2
def skipInt32 (cls : ReaderClass) : ReaderM Unit := skipBytes cls 4
def skipInt48 (cls : ReaderClass) : ReaderM Unit := skipBytes cls 6
def skipInt64 (cls : ReaderClass) : ReaderM Unit := skipBytes cls 8

/-! ## Packed integers -/

/-- `getPackedUInt30` and `getPackedUInt61`: the low bits are in the header, and how many bytes there
are of the others. -/
def getPackedUInt (cls : ReaderClass) (size : ℕ) : ReaderM ℕ := do
  let header ← getByte cls
  let x ← loadLE cls (header / (0x100 / size))
  return header % (0x100 / size) ||| x * (0x100 / size)

def getPackedUInt30 (cls : ReaderClass) : ReaderM ℕ := getPackedUInt cls 4
def getPackedUInt61 (cls : ReaderClass) : ReaderM ℕ := getPackedUInt cls 8

/-- `INT32_MAX & (v - 1)`, `INT64_MAX & (v - 1)`: zero is null. -/
def unpackUInt (size v : ℕ) : ℕ := (v + 2 ^ (8 * size) - 1) % 2 ^ (8 * size) % 2 ^ (8 * size - 1)

/-- `readPUInt30` and `readPUInt61`. -/
def readPUInt (size null : ℕ) (cls : ReaderClass) : ReaderM ℕ :=
  unlessEnd null (do return unpackUInt size (← getPackedUInt cls size))

def readPUInt30 (cls : ReaderClass) : ReaderM ℕ := readPUInt 4 uint30Null cls
def readPUInt61 (cls : ReaderClass) : ReaderM ℕ := readPUInt 8 uint61Null cls

/-- `skipPUInt30` and `skipPUInt61`. -/
def skipPUInt (size : ℕ) (cls : ReaderClass) : ReaderM Unit :=
  unlessEnd () (do
    let header ← getByte cls
    skip cls (header / (0x100 / size) : ℕ))

def skipPUInt30 (cls : ReaderClass) : ReaderM Unit := skipPUInt 4 cls
def skipPUInt61 (cls : ReaderClass) : ReaderM Unit := skipPUInt 8 cls

/-- `getInterval`: the two high bits of the header are the scale. -/
def getInterval (cls : ReaderClass) : ReaderM ℕ := do
  let header ← getByte cls
  let x := header % 0x40
  match header / 0x40 with
  | 0 => return x * 1000
  | 1 => return x * 60000
  | 2 => return x * 3600000
  | _ => getUInt32 cls

def readInterval (cls : ReaderClass) : ReaderM ℕ := unlessEnd 0 (getInterval cls)

def skipInterval (cls : ReaderClass) : ReaderM Unit :=
  unlessEnd () (do
    let header ← getByte cls
    skip cls (if header / 0x40 = 3 then 4 else 0))

/-! ## Times -/

/-- `skipDateTime`: what is not a time is found out when its bytes have been passed over. -/
def skipDateTime (cls : ReaderClass) : ReaderM Unit :=
  unlessEnd () (do
    let header ← getByte cls
    skip cls (compressedTimestampSize (header / 0x20))
    if header / 0x20 = 0 ∨ (header / 0x20 = 5 ∧ header ≠ 0xA0) then
      throw .invalidTimestamp)

/-! ## Decimals -/

/-- What a decimal is read as: a special value, a floating-point number, or a sign, a mantissa and a
negative power of ten. Without mantissa bytes it is zero. -/
inductive Decimal
  | null
  | negativeInfinity
  | positiveInfinity
  | float (bits : ℕ)
  | zero
  | fraction (isNegative : Bool) (mantissa exp : ℕ)
  deriving DecidableEq, Repr

/-- What `getDecimal` returns. -/
def Decimal.value : Decimal → Float
  | null => Float.ofBits (UInt64.ofNat float64Null)
  | negativeInfinity => -1.0 / 0.0
  | positiveInfinity => 1.0 / 0.0
  | float bits => Float.ofBits (UInt64.ofNat bits)
  | zero => 0
  | fraction isNegative mantissa exp => Float.ofNat mantissa / pow10d exp * (if isNegative then -1 else 1)

theorem Decimal.isNaN_value_null : null.value.isNaN = true := by decide +kernel

/-- The part of `getDecimal` behind the header. -/
def getDecimalOf (cls : ReaderClass) (header : ℕ) : ReaderM Decimal := do
  if header = 0x1F then return .null
  else if header = 0x2F then return .negativeInfinity
  else if header = 0x3F then return .positiveInfinity
  else if header = 0x0F then return .float (← getUInt64 cls)
  else if header / 0x10 % 8 = 0 then return .zero
  else return .fraction (header / 0x80 = 1) (← loadLE cls (header / 0x10 % 8)) (header % 0x10)

/-- `getDecimal`, up to the division. -/
def getDecimal (cls : ReaderClass) : ReaderM Decimal := do
  let header ← getByte cls
  getDecimalOf cls header

def readDecimal (cls : ReaderClass) : ReaderM Float := do
  return (← unlessEnd Decimal.null (getDecimal cls)).value

def skipDecimal (cls : ReaderClass) : ReaderM Unit :=
  unlessEnd () (do
    let header ← getByte cls
    if header = 0x1F ∨ header = 0x2F ∨ header = 0x3F then return ()
    else if header = 0x0F then skip cls 8
    else skip cls (header / 0x10 % 8 : ℕ))

/-! ## Alphanumeric -/

/-- The loop of `getAlphanumeric<uint32>`: six bits after six bits, and three more bytes when the
accumulator has no six bits left. -/
def unpackCharacters (mem : ByteMemory.Memory) : ℕ → ℕ → ℤ → ℤ → List ℕ
  | 0, _, _, _ => []
  | len + 1, accumulator, bitIndex, readPtr =>
    let c := (accumulator >>> bitIndex.toNat) % 0x40 + 0x20
    if bitIndex - 6 < 0 then
      let refill := ofBigEndian (ByteMemory.bytes mem readPtr 4)
      c :: unpackCharacters mem len ((accumulator <<< 24 ||| refill >>> 8) % 2 ^ 32) (bitIndex - 6 + 24)
        (readPtr + 3)
    else
      c :: unpackCharacters mem len accumulator (bitIndex - 6) readPtr

/-- The length of an alphanumeric value, from the four bytes at its start. -/
def alphanumericLength (fieldSize word : ℕ) : ℕ := word >>> (32 - sizeBits fieldSize)

/-- `getAlphanumeric<uint32>`: nothing for null. -/
def getAlphanumeric (cls : ReaderClass) (fieldSize : ℕ) : ReaderM (Option (List ℕ)) := do
  let numHeaderBytes := (sizeBits fieldSize + 7) / 8
  let p ← peek cls numHeaderBytes
  let r ← get
  let len := alphanumericLength fieldSize (ofBigEndian (ByteMemory.bytes r.mem p 4))
  if sizeCodes fieldSize = len then
    skip cls numHeaderBytes
    return none
  else
    let p ← bytes cls ((sizeBits fieldSize + len * 6 + 7) / 8 : ℕ)
    let r ← get
    let accumulator := ofBigEndian (ByteMemory.bytes r.mem p 4)
    return some (unpackCharacters r.mem len accumulator (32 - sizeBits fieldSize - 6) (p + 4))

def readAlphanumeric (fieldSize : ℕ) (cls : ReaderClass) : ReaderM (Option (List ℕ)) :=
  unlessEnd none (getAlphanumeric cls fieldSize)

/-- `ALPHANUMERIC_NULL` in an unsigned type of `size` bytes. -/
def alphanumericNull (size : ℕ) : ℕ := 2 ^ (8 * size - 1)

/-- `highbytemask64LUT`. -/
def highByteMask64 (count : ℕ) : ℕ := 2 ^ 64 - 2 ^ (64 - 8 * count)

/-- `getAlphanumericAs` a type of `size` bytes. The mask is one of 64 bits, whatever the type is. -/
def getAlphanumericAs (cls : ReaderClass) (size fieldSize : ℕ) : ReaderM ℕ := do
  let codes := sizeCodes fieldSize
  if 10 + 1 < codes then
    throw .alphanumericSizeTooBig
  else
    let p ← peek cls 1
    let r ← get
    let len := (r.mem p).toNat >>> (8 - sizeBits fieldSize)
    if codes ≤ len then
      if len = codes then
        skip cls 1
        return alphanumericNull size
      else
        throw .alphanumericLengthTooBig
    else
      let fullSize := (sizeBits fieldSize + 7 + 6 * len) / 8
      let p ← bytes cls fullSize
      let r ← get
      return highByteMask64 fullSize &&& ofBigEndian (ByteMemory.bytes r.mem p size)

def readAlphanumericAs (size fieldSize : ℕ) (cls : ReaderClass) : ReaderM ℕ :=
  unlessEnd (alphanumericNull size) (getAlphanumericAs cls size fieldSize)

def skipAlphanumeric (fieldSize : ℕ) (cls : ReaderClass) : ReaderM Unit :=
  unlessEnd () (do
    let nSizeBytes := (sizeBits fieldSize + 7) / 8
    let p ← peek cls nSizeBytes
    let r ← get
    let len := alphanumericLength fieldSize (ofBigEndian (ByteMemory.bytes r.mem p 4))
    skip cls (if len ≠ sizeCodes fieldSize then (sizeBits fieldSize + 7 + 6 * len) / 8 else nSizeBytes : ℕ))

/-- One case of the switch of `toAlphanumericInt64<10>`: the character at position `i`, from 1. -/
def packCharacter (chars : List ℕ) (i : ℕ) : ℕ := ((chars.getD (i - 1) 0 + 2 ^ 32 - 0x20) % 0x40) <<< ((10 - i) * 6)

/-- `toAlphanumericInt64<10>`. The length is of 32 bits and is shifted by 60: the language leaves open
what comes out, and `shift` stands for it. -/
def toAlphanumericInt64 (shift : UInt32 → UInt32) (chars : List ℕ) : ℕ :=
  if 10 < chars.length then
    alphanumericNull 8
  else
    -- the cases fall through to the first character
    let acc := (List.range' 1 chars.length).foldr (fun i acc ↦ acc ||| packCharacter chars i) 0
    ((shift (UInt32.ofNat chars.length)).toNat + acc) % 2 ^ 64

/-- The labels of the switch of `fromAlphanumericInt64<10>`, in the order of the source. -/
def switchLabels : List ℕ := [10, 9, 7, 8, 6, 5, 4, 3, 2, 1]

/-- `fromAlphanumericInt64<10>`: the length, and the characters that `dest` has after the call. -/
def fromAlphanumericInt64 (dest : ℕ → ℕ) (value : ℕ) : ℕ × (ℕ → ℕ) :=
  if value = alphanumericNull 8 then
    (10 + 1, dest)
  else
    let len := value >>> (64 - 4)
    let value := value <<< 4 % 2 ^ 64
    -- the cases fall through from the label on
    let cases := switchLabels.dropWhile fun label ↦ label ≠ len
    (len, cases.foldl
      (fun dest i ↦ Function.update dest (i - 1) (value >>> (64 - 6 * i) % 0x40 + 0x20)) dest)

/-! ## Strings and binary data -/

/-- `readUTF8` and `readAscii`. -/
def readUTF8 (cls : ReaderClass) : ReaderM (Option (List UInt8)) := unlessEnd none (getUTF8 cls)
def readAscii (cls : ReaderClass) : ReaderM (Option (List UInt8)) := readUTF8 cls

/-- `skipUTF8` and `skipAscii`. -/
def skipUTF8 (cls : ReaderClass) : ReaderM Unit :=
  unlessEnd () (do
    let l ← getUInt16 cls
    skip cls (if l = 0xFFFF then 0 else l : ℕ))

def skipAscii (cls : ReaderClass) : ReaderM Unit := skipUTF8 cls

/-- `readBinary` does not ask whether the content has ended. -/
def readBinary (cls : ReaderClass) : ReaderM (Option (List UInt8)) := do
  let isNull ← getByte cls
  if isNull ≠ 0 then
    return none
  else
    let len ← getPackedUInt30 cls
    return some (← getBytes cls len)

def skipBinary (cls : ReaderClass) : ReaderM Unit :=
  unlessEnd () (do
    let isNull ← getByte cls
    if isNull ≠ 0 then
      return ()
    else
      let len ← getPackedUInt30 cls
      skip cls len)

/-! ## Nullable types -/

/-- A call that returns false for null. -/
def nullable {α : Type} (isNull : α → Prop) [DecidablePred isNull] (program : ReaderM α) : ReaderM (Option α) :=
  unlessEnd none (do
    let value ← program
    return if isNull value then none else some value)

def readNullableInt8 (cls : ReaderClass) : ReaderM (Option ℤ) := nullable (· = -0x80) (loadSigned cls 1)
def readNullableInt16 (cls : ReaderClass) : ReaderM (Option ℤ) := nullable (· = -2 ^ 15) (loadSigned cls 2)
def readNullableInt32 (cls : ReaderClass) : ReaderM (Option ℤ) := nullable (· = -2 ^ 31) (loadSigned cls 4)
def readNullableInt48 (cls : ReaderClass) : ReaderM (Option ℤ) := nullable (· = -2 ^ 47) (loadSigned cls 6)
def readNullableInt64 (cls : ReaderClass) : ReaderM (Option ℤ) := nullable (· = -2 ^ 63) (loadSigned cls 8)
def readNullablePUInt30 (cls : ReaderClass) : ReaderM (Option ℕ) := nullable (· = uint30Null) (readPUInt30 cls)
def readNullablePUInt61 (cls : ReaderClass) : ReaderM (Option ℕ) := nullable (· = uint61Null) (readPUInt61 cls)
def readNullableInterval (cls : ReaderClass) : ReaderM (Option ℕ) := nullable (· = 0) (readInterval cls)

/-- `readFloat64(double &)`: false for all that is not null. -/
def readNullableFloat64 (cls : ReaderClass) : ReaderM (Option ℕ) := nullable (· ≠ float64Null) (loadBE cls 8)

/-- `readFloat32(float &)`: false for all that is not null. -/
def readNullableFloat32 (cls : ReaderClass) : ReaderM (Option ℕ) := nullable (· ≠ float32Null) (loadBE cls 4)

/-- `readDecimal(double &)`: a decimal is null if its value is not a number. -/
def readNullableDecimal (cls : ReaderClass) : ReaderM (Option Float) :=
  nullable (fun value : Float ↦ value.isNaN = true) (do return (← getDecimal cls).value)

def readNullableEnum8 (cls : ReaderClass) : ReaderM (Option ℤ) := nullable (· = -1) (loadSigned cls 1)
def readNullableEnum16 (cls : ReaderClass) : ReaderM (Option ℤ) := nullable (· = -1) (loadSigned cls 2)
def readNullableEnum32 (cls : ReaderClass) : ReaderM (Option ℤ) := nullable (· = -1) (loadSigned cls 4)
def readNullableEnum64 (cls : ReaderClass) : ReaderM (Option ℤ) := nullable (· = -1) (loadSigned cls 8)
def readNullableTimestamp (cls : ReaderClass) : ReaderM (Option ℤ) := nullable (· = timestampNull) (readInt64 cls)

/-- `readNullableBoolean`: whether the byte is 1. -/
def readNullableBoolean (cls : ReaderClass) : ReaderM (Option Bool) := do
  return (← nullable (· = 0xFF) (getByte cls)).map fun x ↦ x = 1

def readNullableWChar (cls : ReaderClass) : ReaderM (Option ℕ) := nullable (· = 0) (getUInt16 cls)

end DxApi.Reader
