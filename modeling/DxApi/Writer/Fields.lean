import DxApi.Writer.DataWriter

/-!
# The fields of a message

Every field write of `DataWriter` is a sequence of stores, each with its own check that the pointer
did not pass the end of the buffer. The check comes after the pointer was moved, so that a store
that throws leaves the pointer behind the end. Arguments that cannot be written are found before the
first store in some functions, and between two stores in others.

Characters, numbers and bit patterns are natural numbers and integers; `word` cuts one to the width
of the type it is stored as. The overloads with `isNull` are those without at the null value.
-/

namespace DxApi.Writer

open Exec ByteMemory ByteOrder

/-- The bits of a number in a type of `size` bytes, in two's complement. -/
def word (size : ℕ) (value : ℤ) : ℕ := (value % 2 ^ (8 * size)).toNat

/-- `putBE` of a whole word. -/
def putWord (size : ℕ) (value : ℤ) : WriterM Unit := putBE (bigEndian size (word size value)) size

/-- `putLE` of a 64-bit word of which `size` bytes count. -/
def putLE (value size : ℕ) : WriterM Unit := putBE (littleEndian 8 value) size

/-- A byte is stored over one that was written before. -/
def storeByte (address : ℤ) (value : ℕ) : WriterM Unit :=
  modify fun w ↦ { w with mem := store w.mem address [UInt8.ofNat value] }

/-! ## Fixed size -/

def writeByte (value : ℤ) : WriterM Unit := putWord 1 value
def writeInt8 (value : ℤ) : WriterM Unit := putWord 1 value
def writeUInt16 (value : ℤ) : WriterM Unit := putWord 2 value
def writeInt16 (value : ℤ) : WriterM Unit := putWord 2 value
def writeUInt32 (value : ℤ) : WriterM Unit := putWord 4 value
def writeInt32 (value : ℤ) : WriterM Unit := putWord 4 value
def writeUInt40 (value : ℤ) : WriterM Unit := putBE (bigEndian 8 (word 8 (value * 2 ^ 24))) 5
def writeInt48 (value : ℤ) : WriterM Unit := putBE (bigEndian 8 (word 8 (value * 2 ^ 16))) 6
def writeUInt64 (value : ℤ) : WriterM Unit := putWord 8 value
def writeInt64 (value : ℤ) : WriterM Unit := putWord 8 value

/-- `writeFloat64`, of the bits of the number. -/
def writeFloat64 (bits : ℤ) : WriterM Unit := putWord 8 bits

/-- `writeFloat32`, of the bits of the number. -/
def writeFloat32 (bits : ℤ) : WriterM Unit := putWord 4 bits
def writeTimestamp (value : ℤ) : WriterM Unit := putWord 8 value
def writeTimeOfDay (value : ℤ) : WriterM Unit := putWord 4 value
def writeEnum8 (value : ℤ) : WriterM Unit := putWord 1 value
def writeEnum16 (value : ℤ) : WriterM Unit := putWord 2 value
def writeEnum32 (value : ℤ) : WriterM Unit := putWord 4 value
def writeEnum64 (value : ℤ) : WriterM Unit := putWord 8 value
def writeBoolean (value : ℤ) : WriterM Unit := putWord 1 value
def writeWChar (value : ℤ) : WriterM Unit := putWord 2 value
def writeBinaryArrayNull : WriterM Unit := putWord 1 1
def writeArrayNull : WriterM Unit := putWord 1 0
def writeObjectNull : WriterM Unit := putWord 1 0

/-- The null string. -/
def writeUTF8Null : WriterM Unit := putWord 2 0xFFFF

/-! ## Packed integers -/

/-- `writeVariableLengthInt`: a header byte is left free and the number follows, without its leading
zero bytes; the result is where the header is and how many bytes follow it. -/
def writeVariableLengthInt (size value : ℕ) : WriterM (ℤ × ℕ) := do
  let w ← get
  let length := (Nat.size value + 7) / 8
  putBE (0 :: littleEndian size value) (length + 1)
  return (w.dataPtr, length)

/-- `writePackedUInt`: 6 low bits of a 32-bit number and 5 of a 64-bit number are in the header. -/
def writePackedUInt (size value : ℕ) : WriterM Unit := do
  let (headerPtr, numBytes) ← writeVariableLengthInt size (value / (0x100 / size))
  storeByte headerPtr (value % (0x100 / size) ||| numBytes * (0x100 / size))

/-- `UINT30_NULL`. -/
def uint30Null : ℕ := 0x7FFFFFFF

/-- `UINT61_NULL`. -/
def uint61Null : ℕ := 0x7FFFFFFFFFFFFFFF

/-- `writePUInt30` and `writePUInt61`: null is written as 0, and numbers from 1 on. -/
def writePUInt (size nullValue maxValue value : ℕ) : WriterM Unit := do
  if value = nullValue then
    putByte 0
  else if maxValue < value then
    throw (.numberTooBig value)
  else
    writePackedUInt size (value + 1)

def writePUInt30 (value : ℕ) : WriterM Unit := writePUInt 4 uint30Null (2 ^ 30 - 2) value
def writePUInt61 (value : ℕ) : WriterM Unit := writePUInt 8 uint61Null (2 ^ 61 - 2) value

/-- `INTERVAL_HEADER(OTHER)`: the value follows as it is. -/
def putOtherInterval (value : ℕ) : WriterM Unit := do
  putByte 0xC0
  putWord 4 value

/-- An interval of `v` units that fits in six bits is one byte. -/
def putScaledInterval (v value : ℕ) : WriterM Unit := do
  if v < 0x40 then
    putByte (UInt8.ofNat v)
  else
    putOtherInterval value

/-- `putInterval`: the scale is computed, but not written. -/
def putInterval (value : ℕ) : WriterM Unit := do
  if value = 0 then
    putByte 0
  else if 0x7FFFFFFF < value then
    throw (.intervalTooBig value)
  else if value % 60000 = 0 then
    if value % 3600000 = 0 then
      putScaledInterval (value / 3600000) value
    else
      putScaledInterval (value / 60000) value
  else if value % 1000 = 0 then
    putScaledInterval (value / 1000) value
  else
    putOtherInterval value

/-! ## Times -/

/-- `COMPRESSED_TIMESTAMP_BASE_MS`. -/
def compressedTimestampBaseMs : ℤ := -70 * 366 * 24 * 3600000

/-- `TIMESTAMP_NULL`. -/
def timestampNull : ℤ := -2 ^ 63

/-- `PACK_TIME`: the granularity goes between the five low bits and the others. -/
def packTime (granularity numBytes q : ℕ) : WriterM Unit := do
  if 2 ^ (numBytes * 8 - 3) ≤ q then
    throw (.timeTooBig numBytes q)
  else
    putLE (q % 0x20 + (q - q % 0x20) * 8 + granularity * 0x20) numBytes

/-- `putCompressedMillisecondTime`. -/
def putCompressedMillisecondTime (value : ℤ) : WriterM Unit := do
  let t := word 8 (value - compressedTimestampBaseMs)
  if 2 ^ 63 ≤ t then
    throw (.timeTooSmall value)
  else if t % 10000 = 0 then
    if t % 3600000 = 0 then
      packTime 4 3 (t / 3600000)
    else
      packTime 3 4 (t / 10000)
  else if t % 1000 = 0 then
    packTime 2 5 (t / 1000)
  else
    packTime 1 6 t

/-- `putCompressedNanosecondTime`: the base is the one in milliseconds here as well. -/
def putCompressedNanosecondTime (value : ℤ) : WriterM Unit := do
  let t := word 8 (value - compressedTimestampBaseMs)
  if 2 ^ 63 ≤ t then
    throw (.timeTooSmall value)
  else if 2 ^ 61 ≤ t then
    putByte (UInt8.ofNat (7 * 0x20 + t % 0x20))
    putLE (t / 0x20) 8
  else
    putByte (UInt8.ofNat (6 * 0x20 + t % 0x20))
    putLE (t / 0x20) 7

/-- The largest multiple of `divisor` among the signed numbers of 64 bits. -/
def maxMultiple (divisor : ℕ) : ℕ := (2 ^ 63 - 1) / divisor * divisor

/-- `fast_divisible_by`. -/
def fastDivisibleBy (divided : ℤ) (divisor : ℕ) : Bool :=
  word 8 (divided + maxMultiple divisor) % divisor = 0

/-- The signed number whose 64 bits are those of `value`. -/
def signed64 (value : ℤ) : ℤ := Int.bmod value (2 ^ 64)

/-- `fast_divide_by`. -/
def fastDivideBy (divided : ℤ) (divisor : ℕ) : ℤ :=
  signed64 (word 8 (divided + maxMultiple divisor) / divisor - (2 ^ 63 - 1) / divisor)

/-- `TIME_NANOS_PER_MILLISECOND`. -/
def timeNanosPerMillisecond : ℕ := 1000000

/-- `writeCompressedNanoTime`. -/
def writeCompressedNanoTime (value : ℤ) : WriterM Unit := do
  if value = timestampNull then
    putByte 0xA0
  else if fastDivisibleBy value timeNanosPerMillisecond then
    putCompressedMillisecondTime (fastDivideBy value timeNanosPerMillisecond)
  else
    putCompressedNanosecondTime value

/-- `writeCompressedTime`. -/
def writeCompressedTime (value : ℤ) : WriterM Unit := do
  if value = timestampNull then
    putByte 0xA0
  else
    putCompressedMillisecondTime value

/-! ## Decimals -/

/-- `writeSpecialDecimal`: the byte of a value that is not written as a fraction. -/
def specialDecimal (value : Float) : Option UInt8 :=
  if value == 0 then some 0
  else if value != value then some 0x1F
  else if value == -1.0 / 0.0 then some 0x2F
  else if value == 1.0 / 0.0 then some 0x3F
  else none

/-- `pow10dLUT`. -/
def pow10d (exp : ℕ) : Float := Float.ofNat (10 ^ exp)

/-- The loop of `putDecimal`, with `steps` exponents to try from `exp` on: the mantissa and the
exponent of a fraction that is exactly `x`. -/
def decimalFraction (x : Float) : ℕ → ℕ → Option (ℕ × ℕ)
  | 0, _ => none
  | steps + 1, exp =>
    let scale := pow10d exp
    let lv := (x * scale).toInt64.toInt
    if word 8 lv / 2 ^ 56 ≠ 0 then
      none
    else if x == Float.ofInt lv / scale || x == Float.ofInt (lv + 1) / scale then
      let lv := (x * scale + 0.5).floor.toInt64.toInt
      if Float.ofInt lv / scale == x then
        some (word 8 lv, exp)
      else
        decimalFraction x steps (exp + 1)
    else
      decimalFraction x steps (exp + 1)

/-- A fraction: the sign, the number of bytes and the exponent are in the header. -/
def putCompressedDecimal (isNegative : Bool) (mantissa exp : ℕ) : WriterM Unit := do
  let (headerPtr, numBytes) ← writeVariableLengthInt 8 mantissa
  storeByte headerPtr (isNegative.toNat * 0x80 + numBytes * 0x10 + exp)

/-- The number itself, behind a byte that says so. -/
def putUncompressedDecimal (value : Float) : WriterM Unit := do
  putByte 0x0F
  putWord 8 value.toBits.toNat

/-- `putDecimal(value)`. -/
def putDecimal (value : Float) : WriterM Unit :=
  match specialDecimal value with
  | some byte => putByte byte
  | none =>
    match decimalFraction value.abs 15 0 with
    | some (mantissa, exp) => putCompressedDecimal (value < 0) mantissa exp
    | none => putUncompressedDecimal value

/-- Trailing zeros of the mantissa are taken off, down to the first decimal place. -/
def stripZeros : ℕ → ℕ → ℕ × ℕ
  | exp + 2, lv => if lv % 10 = 0 then stripZeros (exp + 1) (lv / 10) else (lv, exp + 2)
  | exp, lv => (lv, exp)

/-- A mantissa of more than seven bytes is written as the number itself, and then nevertheless as a
fraction: there is no `return` in between. -/
def putRoundedDecimal (value : Float) (mantissa exp : ℕ) : WriterM Unit :=
  if mantissa / 2 ^ 56 ≠ 0 then do
    putUncompressedDecimal value
    putCompressedDecimal (value < 0) mantissa exp
  else
    putCompressedDecimal (value < 0) mantissa exp

/-- `putDecimal(value, precision)`. -/
def putDecimalOfPrecision (value : Float) (precision : ℕ) : WriterM Unit :=
  match specialDecimal value with
  | some byte => putByte byte
  | none =>
    let lv := (value.abs * pow10d precision + 0.5).floor.toUInt64.toNat
    let (mantissa, exp) := stripZeros precision lv
    putRoundedDecimal value mantissa exp

/-! ## Alphanumeric -/

/-- The size of a field and one more, for null, as a 32-bit number. -/
def sizeCodes (fieldSize : ℕ) : ℕ := (fieldSize + 1) % 2 ^ 32

/-- How many bits hold the length of a value of the field. -/
def sizeBits (fieldSize : ℕ) : ℕ := Nat.size (sizeCodes fieldSize)

/-- `putAlphanumericNull`: a length that no value has. -/
def putAlphanumericNull (fieldSize : ℕ) : WriterM Unit :=
  putBE (bigEndian 4 (sizeCodes fieldSize * 2 ^ (32 - sizeBits fieldSize)))
    ((sizeBits fieldSize + 7) / 8)

/-- `putAlphanumeric` when `str` is `NULL`. -/
def putAlphanumericOfNull (fieldSize stringLength : ℕ) : WriterM Unit := do
  if fieldSize < stringLength then
    throw .alphanumericTooLong
  else
    putAlphanumericNull fieldSize

/-- A character of an alphanumeric value, as an unsigned number. -/
def alphanumericCode (c : ℕ) : ℕ := (c + 2 ^ 32 - 0x20) % 2 ^ 32

/-- Room for six more bits in the accumulator: when there is none the accumulator is written. The
bits that fill it up are taken from `ch`, which has not been assigned yet. -/
def reserveBits (ch accumulator : ℕ) (nBitsFree : ℤ) : WriterM (ℕ × ℤ) := do
  let nBitsFree := nBitsFree - 6
  if nBitsFree < 0 then
    putBE (bigEndian 8 (accumulator <<< (nBitsFree + 6).toNat ||| ch >>> (-nBitsFree).toNat)) 8
    return (0, nBitsFree + 64)
  else
    return (accumulator, nBitsFree)

/-- The loop of `putAlphanumeric`; `unassigned` is what `ch` holds before it is assigned. -/
def putCharacters (unassigned : ℕ → ℕ) : List ℕ → ℕ → ℤ → WriterM Unit
  | [], accumulator, nBitsFree =>
    putBE (bigEndian 8 (accumulator <<< nBitsFree.toNat)) ((71 - nBitsFree).toNat / 8)
  | c :: str, accumulator, nBitsFree => do
    let (accumulator, nBitsFree) ← reserveBits (unassigned str.length) accumulator nBitsFree
    let ch := alphanumericCode c
    if 0x40 ≤ ch then
      throw (.invalidCharacter ch)
    else
      putCharacters unassigned str ((accumulator <<< 6 ||| ch) % 2 ^ 64) nBitsFree

/-- `putAlphanumeric` of a string. -/
def putAlphanumeric (unassigned : ℕ → ℕ) (fieldSize : ℕ) (str : List ℕ) : WriterM Unit := do
  if fieldSize < str.length then
    throw .alphanumericTooLong
  else if sizeCodes fieldSize < str.length then
    throw .alphanumericTooLong
  else if str.length = 0 then
    putBE (littleEndian 4 0) ((sizeBits fieldSize + 7) / 8)
  else
    putCharacters unassigned str str.length (64 - sizeBits fieldSize)

/-- `writeAlphanumericInt` of a number of `size` bytes: the length is in its top bits. -/
def writeAlphanumericInt (size fieldSize : ℕ) (value : ℤ) : WriterM Unit := do
  if value = -2 ^ (8 * size - 1) then
    putAlphanumericNull fieldSize
  else
    let len := word size value / 2 ^ (8 * size - sizeBits fieldSize)
    putBE (bigEndian size (word size value)) ((sizeBits fieldSize + 6 * len + 7) / 8)

/-! ## Strings and binary data -/

/-- One character of the loop of `writeUTF8(const wchar_t *)` that is no surrogate. -/
def putCodeUnit (c : ℕ) : WriterM Unit := do
  if c < 0x80 then
    putByte (UInt8.ofNat c)
  else if c < 0x800 then
    putByte (UInt8.ofNat (0xC0 ||| (c >>> 6) &&& 0x1F))
    putByte (UInt8.ofNat (0x80 ||| c &&& 0x3F))
  else
    putByte (UInt8.ofNat (0xE0 ||| (c >>> 12) &&& 0x0F))
    putByte (UInt8.ofNat (0x80 ||| (c >>> 6) &&& 0x3F))
    putByte (UInt8.ofNat (0x80 ||| c &&& 0x3F))

/-- A pair of surrogates. -/
def putSurrogates (c cc : ℕ) : WriterM Unit := do
  let c := word 4 (c * 2 ^ 10 + (0x10000 - 0xD800 * 2 ^ 10 - 0xDC00 : ℤ) + cc)
  putByte (UInt8.ofNat (0xF0 ||| (c >>> 18) &&& 0x07))
  putByte (UInt8.ofNat (0x80 ||| (c >>> 12) &&& 0x3F))
  putByte (UInt8.ofNat (0x80 ||| (c >>> 6) &&& 0x3F))
  putByte (UInt8.ofNat (0x80 ||| c &&& 0x3F))

/-- The loop of `writeUTF8(const wchar_t *)`. -/
def putWideCharacters : List ℕ → WriterM Unit
  | [] => return ()
  | c :: data =>
    if c < 0x800 ∨ c &&& 0xF800 ≠ 0xD800 then do
      putCodeUnit c
      putWideCharacters data
    else if c &&& 0x400 ≠ 0 then
      throw .badSurrogate
    else
      match data with
      | [] => throw .badSurrogate
      | cc :: data =>
        if cc &&& 0xFC00 ≠ 0xDC00 then
          throw .badSurrogate
        else do
          putSurrogates c cc
          putWideCharacters data

/-- The length of a wide string is known once it has been written. -/
def storeLength (header : ℤ) : WriterM Unit := do
  let w ← get
  let length := (w.dataPtr - header - 2).toNat
  if 0xFFFF ≤ length then
    throw (.stringTooBig length)
  else
    modify fun w ↦ { w with mem := store w.mem header (bigEndian 2 length) }

/-- `writeUTF8(const wchar_t *)`. -/
def writeWideUTF8 (data : List ℕ) : WriterM Unit := do
  if 0xFFFF ≤ data.length then
    throw (.stringTooBig data.length)
  else
    let w ← get
    putWord 2 0
    if data.length ≠ 0 then
      putWideCharacters data
      storeLength w.dataPtr

/-- `writeAscii(const char *)`. -/
def writeAscii (data : List UInt8) : WriterM Unit := writeUTF8 data

/-- One byte for each character. -/
def putLowBytes : List ℕ → WriterM Unit
  | [] => return ()
  | c :: data => do
    putByte (UInt8.ofNat c)
    putLowBytes data

/-- `writeAscii(const wchar_t *)`. -/
def writeWideAscii (data : List ℕ) : WriterM Unit := do
  if 0xFFFF ≤ data.length then
    throw (.stringTooBig data.length)
  else
    putWord 2 data.length
    putLowBytes data

/-- The pointer is moved over the data before there is seen to be room. -/
def reserveBytes (size : ℕ) : WriterM ℤ := do
  let w ← get
  set { w with dataPtr := w.dataPtr + size }
  if w.dataEnd < w.dataPtr + size then
    if 2 ^ 23 ≤ size then
      throw (.illegalSize size)
    else
      throw (.noSpaceRemaining size)
  else
    return w.dataPtr

/-- `writeBinaryArrayEx`. -/
def writeBinaryArrayEx (size : ℕ) : WriterM ℤ := do
  putByte 0
  writePackedUInt 4 (size % 2 ^ 32)
  reserveBytes size

/-- `writeBinaryArray`. -/
def writeBinaryArray (data : List UInt8) : WriterM Unit := do
  let pStart ← writeBinaryArrayEx data.length
  modify fun w ↦ { w with mem := store w.mem pStart data }

/-! ## The calls -/

/-- The fields of a fixed size. -/
inductive FixedWrite
  | byte (value : ℤ)
  | int8 (value : ℤ)
  | uint16 (value : ℤ)
  | int16 (value : ℤ)
  | uint32 (value : ℤ)
  | int32 (value : ℤ)
  | uint40 (value : ℤ)
  | int48 (value : ℤ)
  | uint64 (value : ℤ)
  | int64 (value : ℤ)
  | float64 (bits : ℤ)
  | float32 (bits : ℤ)
  | timestamp (value : ℤ)
  | timeOfDay (value : ℤ)
  | enum8 (value : ℤ)
  | enum16 (value : ℤ)
  | enum32 (value : ℤ)
  | enum64 (value : ℤ)
  | boolean (value : ℤ)
  | wChar (value : ℤ)
  | binaryArrayNull
  | arrayNull
  | objectNull
  | utf8Null

def FixedWrite.exec : FixedWrite → WriterM Unit
  | byte value => writeByte value
  | int8 value => writeInt8 value
  | uint16 value => writeUInt16 value
  | int16 value => writeInt16 value
  | uint32 value => writeUInt32 value
  | int32 value => writeInt32 value
  | uint40 value => writeUInt40 value
  | int48 value => writeInt48 value
  | uint64 value => writeUInt64 value
  | int64 value => writeInt64 value
  | float64 bits => writeFloat64 bits
  | float32 bits => writeFloat32 bits
  | timestamp value => writeTimestamp value
  | timeOfDay value => writeTimeOfDay value
  | enum8 value => writeEnum8 value
  | enum16 value => writeEnum16 value
  | enum32 value => writeEnum32 value
  | enum64 value => writeEnum64 value
  | boolean value => writeBoolean value
  | wChar value => writeWChar value
  | binaryArrayNull => writeBinaryArrayNull
  | arrayNull => writeArrayNull
  | objectNull => writeObjectNull
  | utf8Null => writeUTF8Null

/-- The writes of one field that is no container. -/
inductive LeafWrite
  | fixed (write : FixedWrite)
  | pUInt30 (value : ℕ)
  | pUInt61 (value : ℕ)
  | interval (value : ℕ)
  | compressedTime (value : ℤ)
  | compressedNanoTime (value : ℤ)
  | decimal (value : Float)
  | decimalOfPrecision (value : Float) (precision : ℕ)
  | alphanumericNull (fieldSize : ℕ)
  | alphanumericOfNull (fieldSize stringLength : ℕ)
  | alphanumeric (unassigned : ℕ → ℕ) (fieldSize : ℕ) (str : List ℕ)
  | alphanumericInt (size fieldSize : ℕ) (value : ℤ)
  | utf8 (data : List UInt8)
  | wideUTF8 (data : List ℕ)
  | ascii (data : List UInt8)
  | wideAscii (data : List ℕ)
  | binaryArray (data : List UInt8)

def LeafWrite.exec : LeafWrite → WriterM Unit
  | fixed write => write.exec
  | pUInt30 value => writePUInt30 value
  | pUInt61 value => writePUInt61 value
  | interval value => putInterval value
  | compressedTime value => writeCompressedTime value
  | compressedNanoTime value => writeCompressedNanoTime value
  | decimal value => putDecimal value
  | decimalOfPrecision value precision => putDecimalOfPrecision value precision
  | alphanumericNull fieldSize => putAlphanumericNull fieldSize
  | alphanumericOfNull fieldSize stringLength => putAlphanumericOfNull fieldSize stringLength
  | alphanumeric unassigned fieldSize str => putAlphanumeric unassigned fieldSize str
  | alphanumericInt size fieldSize value => writeAlphanumericInt size fieldSize value
  | utf8 data => writeUTF8 data
  | wideUTF8 data => writeWideUTF8 data
  | ascii data => writeAscii data
  | wideAscii data => writeWideAscii data
  | binaryArray data => writeBinaryArray data

end DxApi.Writer
