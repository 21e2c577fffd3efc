import DxApi.Lib.ByteMemory
import DxApi.Lib.ByteOrder
import DxApi.Lib.Exec
import Mathlib.Data.Nat.Size
import Mathlib.Logic.Function.Basic

/-!
# Writing messages

`DataWriterInternal` writes a message into a buffer. The length of a nested array or object is not
known when it is opened: one byte is reserved for it, `closeContainer` fills it in and records an
expansion point where the length needs two or three bytes, and `finishMessage` moves the data apart
to make room for them.

A release build is modelled, in which `assert` does nothing, with `LOADER_OBJ_IMPL` 2 and without
trimming of trailing null fields, so that `dataEndNotNull` is not read.
-/

namespace DxApi.Writer

open Exec ByteMemory ByteOrder

/-! ## Data -/

/-- Why a call on a writer does not return. -/
inductive WriteError
  | bufferOverflow (size : ℤ)
  | stringTooBig (length : ℕ)
  | depthOverflow (isArray : Bool)
  | depthUnderflow (isArray : Bool)
  | wrongType (isArray : Bool)
  | depth0Expected (depth : ℕ)
  | expandedTooBig (size : ℤ)
  | expansionLogic (offset : ℤ)
  | intervalTooBig (value : ℕ)
  | numberTooBig (value : ℕ)
  | timeTooSmall (value : ℤ)
  | timeTooBig (numBytes q : ℕ)
  | alphanumericTooLong
  | invalidCharacter (ch : ℕ)
  /-- UTF-16 that is not well formed. -/
  | badSurrogate
  | illegalSize (size : ℕ)
  | noSpaceRemaining (size : ℕ)
  /-- A block of negative length is copied: its length wraps around as a size. -/
  | memoryFault
  deriving DecidableEq, Repr

/-- `LOADER_MAX_NESTED_OBJECTS`. -/
def loaderMaxNestedObjects : ℕ := 16

/-- Where a length of more than one byte is to be inserted: the offset of the data after it, and
the bytes of the length below a top byte that says how many bytes it has more than one. -/
structure ExpansionPoint where
  blockOffset : ℕ
  headerLength : ℕ
  deriving DecidableEq, Repr

/-- The data members of `DataWriter` and `DataWriterInternal`. -/
structure DataWriter where
  mem : Memory
  dataPtr : ℤ
  dataEnd : ℤ
  bufferStart : ℤ
  depth : ℕ
  containerHeader : ℕ → ℤ
  containerIsArray : ℕ → Bool
  containerContentsExtraSize : ℕ → ℕ
  expansionPoints : List ExpansionPoint

/-- A member function of the writer. -/
abbrev WriterM (α : Type) := EStateM WriteError DataWriter α

/-! ## Bytes -/

/-- `onOverflow`. -/
def onOverflow : WriterM Unit := do
  let w ← get
  throw (.bufferOverflow (w.dataPtr - w.bufferStart))

/-- `putBE` and the other stores of a word: the word `stored` is written whole, only its first
`size` bytes count. -/
def putBE (stored : List UInt8) (size : ℕ) : WriterM Unit := do
  let w ← get
  let p := w.dataPtr
  set { w with mem := store w.mem p stored, dataPtr := p + size }
  if w.dataEnd < p + size then
    onOverflow

def putByte (value : UInt8) : WriterM Unit := putBE [value] 1

/-- `putBytes`: on overflow the part that fits is still copied; there is no such part when the
pointer is behind the end already. -/
def putBytes (data : List UInt8) : WriterM Unit := do
  let w ← get
  let p := w.dataPtr
  if w.dataEnd < p then
    throw .memoryFault
  else if w.dataEnd < p + data.length then
    set { w with mem := store w.mem p (data.take (w.dataEnd - p).toNat), dataPtr := p + data.length }
    onOverflow
  else
    set { w with mem := store w.mem p data, dataPtr := p + data.length }

/-- `writePackedUInt22`: small values are one byte; otherwise a header byte with the low six bits,
and the number of bytes that hold the others. -/
def writePackedUInt22 (value : ℕ) : WriterM Unit := do
  if value < 0x80 then
    putByte (UInt8.ofNat value)
  else
    let w ← get
    let headerPtr := w.dataPtr
    let numBytes := (Nat.size (value / 0x40) + 7) / 8
    putBE (0 :: littleEndian 4 (value / 0x40)) (numBytes + 1)
    let header := value % 0x40 + 0x40 + numBytes * 0x40
    modify fun w ↦ { w with mem := store w.mem headerPtr [UInt8.ofNat header] }

/-! ## Containers -/

/-- `reserveLengthField`. -/
def reserveLengthField : WriterM Unit := putByte 0

/-- `openContainer`. -/
def openContainer (isArray : Bool) : WriterM Unit := do
  let w ← get
  if loaderMaxNestedObjects ≤ w.depth then
    throw (.depthOverflow isArray)
  else
    set { w with
      depth := w.depth + 1
      containerContentsExtraSize := Function.update w.containerContentsExtraSize (w.depth + 1) 0
      containerHeader := Function.update w.containerHeader w.depth w.dataPtr
      containerIsArray := Function.update w.containerIsArray w.depth isArray }
    reserveLengthField

/-- How many bytes a length of 128 or more takes beyond the reserved one. -/
def extraHeaderBytes (length : ℕ) : ℕ := if 0x4000 ≤ length then 2 else 1

/-- The bytes of a length of 128 or more, below the number of extra bytes. -/
def packedLength (length : ℕ) : ℕ :=
  (length % 0x40 + length / 0x40 * 0x40 * 4 + extraHeaderBytes length * 2 ^ 24 +
    extraHeaderBytes length * 0x40 + 0x40) % 2 ^ 32

/-- `closeContainer`: of the header bytes to be inserted later, only those of the containers
directly inside were added up, and of this container only its own are passed on. -/
def closeContainer (isArray : Bool) : WriterM Unit := do
  let w ← get
  match w.depth with
  | 0 => throw (.depthUnderflow isArray)
  | depth + 1 =>
    set { w with depth := depth }
    if w.containerIsArray depth ≠ isArray then
      throw (.wrongType isArray)
    else
      let contentPtr := w.containerHeader depth + 1
      let length := ((w.dataPtr - contentPtr + w.containerContentsExtraSize (depth + 1)) % 2 ^ 64).toNat
      modify fun w ↦ { w with mem := store w.mem (contentPtr - 1) [UInt8.ofNat length] }
      if 0x80 ≤ length then
        modify fun w ↦ { w with
          containerContentsExtraSize := Function.update w.containerContentsExtraSize depth
            (w.containerContentsExtraSize depth + extraHeaderBytes length)
          expansionPoints := w.expansionPoints ++
            [⟨((contentPtr - w.bufferStart) % 2 ^ 32).toNat, packedLength length⟩] }

/-- `writeArrayStart`: the number of items is part of the content. -/
def writeArrayStart (nItems : ℕ) : WriterM Unit := do
  openContainer true
  writePackedUInt22 (nItems % 2 ^ 32)

/-- `writeObjectStart`. -/
def writeObjectStart (typeIndex : UInt8) : WriterM Unit := do
  openContainer false
  putByte typeIndex

/-- `writeArrayEnd`. -/
def writeArrayEnd : WriterM Unit := closeContainer true

/-- `writeObjectEnd`. -/
def writeObjectEnd : WriterM Unit := closeContainer false

/-! ## Messages -/

/-- `startMessage`: four bytes are left for the length; the result is where the message starts. -/
def startMessage : WriterM ℤ := do
  let w ← get
  let p := w.dataPtr
  putBE [0, 0, 0, 0] 4
  modify fun w ↦ { w with
    expansionPoints := []
    containerContentsExtraSize := Function.update w.containerContentsExtraSize 0 0
    depth := 0 }
  return p + 4

/-- `memmove`. -/
def memmove (target source count : ℤ) : WriterM Unit := do
  if count < 0 then
    throw .memoryFault
  else
    modify fun w ↦ { w with mem := move w.mem target source count.toNat }

/-- The bytes of a stored word that `MASK_ARRAY[diff]` keeps. -/
def keepMask (diff : ℕ) : List UInt8 :=
  if diff = 1 then [0, 0, 0xFF, 0xFF] else [0, 0, 0, 0xFF]

/-- A header of `diff + 1` bytes is written as a word over the bytes at `pHdr`. -/
def storeHeader (pHdr : ℤ) (diff headerLength : ℕ) : WriterM Unit :=
  modify fun w ↦
    let kept := List.zipWith (· &&& ·) (bytes w.mem pHdr 4) (keepMask diff)
    let word := List.zipWith (· ||| ·) (littleEndian 4 (headerLength % 2 ^ 24)) kept
    { w with mem := store w.mem pHdr word }

/-- The loop of `expandHeadersImplBasic` over the expansion points, the last one first. -/
def expandLoop (pBufferStart : ℤ) : List ExpansionPoint → ℤ → ℤ → WriterM (ℤ × ℤ)
  | [], pEnd, offset => return (pEnd, offset)
  | point :: points, pEnd, offset => do
    let pStart := pBufferStart + point.blockOffset
    memmove (pStart + offset) pStart (pEnd - pStart)
    let diff : ℕ := point.headerLength / 2 ^ 24
    let pEnd := pStart - 1
    let offset := offset - diff
    storeHeader (pEnd + offset) diff point.headerLength
    expandLoop pBufferStart points pEnd offset

/-- `expandHeaders` with `expandHeadersImplBasic`. -/
def expandHeaders (pBufferStart pEnd offset : ℤ) (points : List ExpansionPoint) (pMessageStart : ℤ) :
    WriterM Unit := do
  if points = [] then
    return ()
  else
    let (pEnd, offset) ← expandLoop pBufferStart points.reverse pEnd offset
    if offset ≠ 0 ∨ pEnd ≤ pMessageStart then
      throw (.expansionLogic offset)

/-- `finishMessage`: the result is the end of the message. -/
def finishMessage (messageStart : ℤ) : WriterM ℤ := do
  let w ← get
  if w.depth ≠ 0 then
    throw (.depth0Expected w.depth)
  else
    let extraSize := w.containerContentsExtraSize 0
    if extraSize = 0 then
      return w.dataPtr
    else if w.dataEnd < w.dataPtr + extraSize then
      throw (.expandedTooBig (w.dataPtr + extraSize - messageStart))
    else
      expandHeaders w.bufferStart w.dataPtr extraSize w.expansionPoints messageStart
      modify fun w' ↦ { w' with dataPtr := w.dataPtr + extraSize }
      return w.dataPtr + extraSize

/-- `writeUTF8` of a narrow string. -/
def writeUTF8 (data : List UInt8) : WriterM Unit := do
  if 0xFFFF ≤ data.length then
    throw (.stringTooBig data.length)
  else
    putBE (bigEndian 2 data.length) 2
    if data.length ≠ 0 then
      putBytes data

end DxApi.Writer
