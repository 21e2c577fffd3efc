import DxApi.Lib.Assertions
import DxApi.Reader.Dechunk

/-!
# The de-chunker with its assertions

`getFromStream`, `skipStream` and `getOrSkipChunked` with their assertions, and the calls of a decoder
of a `DataReaderHTTPchunked` over them. In a debug build `getFromStream` does not move an empty
buffer's position back to its start, so both builds are modelled: `debug` is `GET_FROM_STREAM_DBG_VER`.
With the assertions erased, a release build is the reader without them.
-/

namespace DxApi.Reader.Checked

open Exec ByteMemory

/-- The assertions, function by function in the order of the source. -/
inductive Assertion
  -- `getFromStream`
  | sizeNeededPositive
  | fromWithinStreamData
  | streamDataWithinBuffer
  | remainingWithinBuffer
  | requestWithinBuffer
  | roomAfterCompacting
  | readEnough
  -- `skipStream`
  | skipSizeNonnegative
  | skipFromWithinStreamData
  | skipRemainingWithinBuffer
  | wholeBufferRead
  | skipSizePositive
  | skipReadEnough
  -- `getOrSkipChunked`
  | fromWithinData
  | sizeBeyondData
  | dataWithinBuffer
  | dataEndsAtStreamOrChunk
  | streamDataIsData
  | streamDataWithinChunk
  | positionWithinChunk
  | chunkTooSmall
  | requestWithHeaderWithinBuffer
  | requestWithHeaderRead
  | fromBeforeBufferEnd
  | chunkSizeWithinMax
  | requestAfterHeaderRead
  | fromWithinBuffer
  | fromStillWithinStreamData
  | requestWithinData
  deriving DecidableEq

/-- A member function of the reader, with its assertions. -/
abbrev CheckedM (α : Type) := EStateM (Failure Assertion ReadError) DataReader α

/-! ## The source -/

/-- Where the unread bytes at `start` stand when `sizeNeeded` more are about to be read. -/
def makeRoom (debug : Bool) (start sizeNeeded : ℤ) : CheckedM (ℤ × ℤ) := do
  let r ← get
  let nBytesRemaining := r.streamDataEnd - start
  if nBytesRemaining = 0 ∧ debug = false then
    set { r with dataPtr := r.bufferStart }
    return (r.bufferStart, r.bufferStart)
  else if r.bufferEnd - r.streamDataEnd < sizeNeeded then
    set { r with
      mem := compact r.mem r.bufferStart start nBytesRemaining.toNat
      dataPtr := r.bufferStart }
    check .roomAfterCompacting (r.bufferStart + sizeNeeded ≤ r.bufferEnd)
    return (r.bufferStart, r.bufferStart + nBytesRemaining)
  else
    return (start, r.streamDataEnd)

/-- `DataReaderBaseImpl::getFromStream`. -/
def getFromStream (debug : Bool) (start sizeNeeded : ℤ) : CheckedM ℤ := do
  check .sizeNeededPositive (0 < sizeNeeded)
  let r ← get
  let nBytesRemaining := r.streamDataEnd - start
  check .fromWithinStreamData (start ≤ r.streamDataEnd)
  check .streamDataWithinBuffer (r.streamDataEnd ≤ r.bufferEnd)
  check .remainingWithinBuffer (nBytesRemaining ≤ r.bufferEnd - r.bufferStart)
  check .requestWithinBuffer (sizeNeeded ≤ r.bufferEnd - r.bufferStart)
  if sizeNeeded ≤ nBytesRemaining then
    return start
  else
    let sizeNeeded := sizeNeeded - nBytesRemaining
    let (start, dataEnd) ← makeRoom debug start sizeNeeded
    let nBytesRead ← unchecked (read dataEnd sizeNeeded (r.bufferEnd - dataEnd))
    check .readEnough (sizeNeeded ≤ nBytesRead)
    modify fun r ↦ { r with
      mem := store r.mem (dataEnd + nBytesRead) [0]
      streamDataEnd := dataEnd + nBytesRead }
    return start

/-- The loop of `skipStream`. -/
def skipBuffers (bufferStart bufferSize : ℤ) : ℕ → ℤ → CheckedM ℤ
  | 0, _ => throw (.thrown .diverged)
  | fuel + 1, size =>
    if bufferSize < size then do
      let szRead ← unchecked (read bufferStart bufferSize bufferSize)
      check .wholeBufferRead (bufferSize = szRead)
      skipBuffers bufferStart bufferSize fuel (size - bufferSize)
    else
      return size

/-- `DataReaderBaseImpl::skipStream`. -/
def skipStream (start size : ℤ) : CheckedM Unit := do
  check .skipSizeNonnegative (0 ≤ size)
  let r ← get
  let nBytesRemaining := r.streamDataEnd - start
  check .skipFromWithinStreamData (start ≤ r.streamDataEnd)
  check .skipRemainingWithinBuffer (nBytesRemaining ≤ r.bufferEnd - r.bufferStart)
  if size ≤ nBytesRemaining then
    set { r with dataPtr := start + size }
  else
    let bufferSize := r.bufferEnd - r.bufferStart
    let size ← skipBuffers r.bufferStart bufferSize (r.s.wire.length + 1) (size - nBytesRemaining)
    check .skipSizePositive (0 < size)
    let szRead ← unchecked (read r.bufferStart size bufferSize)
    check .skipReadEnough (size ≤ szRead)
    modify fun r ↦ { r with
      mem := store r.mem (r.bufferStart + szRead) [0]
      dataPtr := r.bufferStart + size
      streamDataEnd := r.bufferStart + szRead }

/-- One look for a header: a get reads its request with it, a skip only a part. -/
def requestHeader (debug skip : Bool) (start size chunkHeaderLength : ℤ) : CheckedM ℤ := do
  let r ← get
  if skip then
    check .fromBeforeBufferEnd (start < r.bufferEnd - chunkHeaderSizeMax - 1)
    getFromStream debug start (headerRequest skip size chunkHeaderLength)
  else
    check .requestWithHeaderWithinBuffer (size + chunkHeaderSizeMax < r.bufferEnd - r.bufferStart)
    let start ← getFromStream debug start (headerRequest skip size chunkHeaderLength)
    let r ← get
    check .requestWithHeaderRead (start + size + chunkHeaderLength ≤ r.streamDataEnd)
    return start

/-- The inner loop of `getOrSkipChunked`. -/
def readChunkHeader (debug skip : Bool) (size remainingSize : ℤ) : ℕ → ℤ → ℤ → CheckedM (ℤ × ℕ × ℕ)
  | 0, _, _ => throw (.thrown .diverged)
  | fuel + 1, start, chunkHeaderLength => do
    let start ← requestHeader debug skip start size chunkHeaderLength
    let r ← get
    match parseChunkHeader (slice r.mem (start + remainingSize) r.streamDataEnd) with
    | (some length, nextSize) => return (start, length, nextSize)
    | (none, nextSize) =>
      if chunkSizeMax < nextSize then
        throw (.thrown .malformedChunkLength)
      else
        readChunkHeader debug skip size remainingSize fuel start (chunkHeaderLength + 2)

/-- The first lines of the loop body: a skip passes over the rest of the chunk at once. -/
def leaveChunk (skip : Bool) (start size remainingSize : ℤ) : CheckedM (ℤ × ℤ × ℤ) :=
  if skip then do
    skipStream start remainingSize
    let r ← get
    return (r.dataPtr, size - remainingSize, 0)
  else
    return (start, size, remainingSize)

/-- The last lines of the loop body: the position after a header of `length` bytes. -/
def passHeader (skip : Bool) (start size remainingSize : ℤ) (length : ℕ) : CheckedM ℤ := do
  let r ← get
  if skip then
    check .fromWithinBuffer (r.bufferStart ≤ start)
    return start + length
  else
    check .requestAfterHeaderRead (r.bufferStart ≤ start ∧ chunkHeaderSizeMin + size ≤ r.streamDataEnd - start)
    unchecked (unwrapHeader start remainingSize length)

/-- The body of the outer loop of `getOrSkipChunked`. -/
def enterChunk (debug skip : Bool) (start size remainingSize : ℤ) : CheckedM (ℤ × ℤ × ℤ) := do
  check .chunkTooSmall (remainingSize < size)
  let (start, size, remainingSize) ← leaveChunk skip start size remainingSize
  let r ← get
  let (start, length, nextSize) ←
    readChunkHeader debug skip size remainingSize (unread r start + 1) start chunkHeaderSizeMin
  check .chunkSizeWithinMax (nextSize ≤ chunkSizeMax)
  let start ← passHeader skip start size remainingSize length
  let r ← get
  check .fromStillWithinStreamData (start ≤ r.streamDataEnd)
  return (start, size, remainingSize + nextSize)

/-- The outer loop of `getOrSkipChunked`. -/
def enterChunks (debug skip : Bool) : ℕ → ℤ → ℤ → ℤ → CheckedM (ℤ × ℤ × ℤ)
  | 0, _, _, _ => throw (.thrown .diverged)
  | fuel + 1, start, size, remainingSize => do
    let (start, size, remainingSize) ← enterChunk debug skip start size remainingSize
    if remainingSize < size then
      enterChunks debug skip fuel start size remainingSize
    else
      return (start, size, remainingSize)

/-- Get or skip `size` bytes of a chunk that has as many left. -/
def getOrSkipInChunk (debug skip : Bool) (start size remainingSize : ℤ) : CheckedM ℤ := do
  if skip then
    skipStream start size
    let r ← get
    unchecked (setChunkEnd (r.dataPtr + (remainingSize - size)))
    return r.dataPtr
  else
    let start ← getFromStream debug start size
    unchecked (setChunkEnd (start + remainingSize))
    return start

/-- `DataReaderHTTPchunked::getOrSkipChunked`. -/
def getOrSkipChunked (debug skip : Bool) (start size : ℤ) : CheckedM ℤ := do
  let r ← get
  check .fromWithinData (start ≤ r.dataEnd)
  check .sizeBeyondData (r.dataEnd < start + size)
  check .dataWithinBuffer (r.dataEnd ≤ r.bufferEnd)
  check .dataEndsAtStreamOrChunk (r.dataEnd = r.streamDataEnd ∨ r.dataEnd = r.chunkEnd)
  let remainingSize := r.chunkEnd - start
  if size ≤ remainingSize then
    check .streamDataIsData (r.streamDataEnd = r.dataEnd)
    check .streamDataWithinChunk (r.streamDataEnd ≤ r.chunkEnd)
    let start ← getOrSkipInChunk debug skip start size remainingSize
    let r ← get
    -- the source asserts this before it sets `dataEnd`, which it does not look at
    check .positionWithinChunk (r.dataPtr ≤ r.chunkEnd)
    return start
  else
    let (start, size, remainingSize) ←
      enterChunks debug skip (unread r start + 1) start size remainingSize
    let start ← getOrSkipInChunk debug skip start size remainingSize
    let r ← get
    check .requestWithinData (skip = true ∨ start + size ≤ r.dataEnd)
    return start

/-- `DataReader::bytes`. -/
def bytes (debug : Bool) (size : ℤ) : CheckedM ℤ := do
  let r ← get
  let p := r.dataPtr
  set { r with dataPtr := p + size }
  if r.dataEnd < p + size then
    let start ← getOrSkipChunked debug false p size
    modify fun r ↦ { r with dataPtr := start + size }
    return start
  else return p

/-- `DataReaderInternal::peek`. -/
def peek (debug : Bool) (size : ℤ) : CheckedM ℤ := do
  let r ← get
  if r.dataEnd < r.dataPtr + size then
    let start ← getOrSkipChunked debug false r.dataPtr size
    modify fun r ↦ { r with dataPtr := start }
    return start
  else return r.dataPtr

/-- `DataReader::skip`. -/
def skip (debug : Bool) (size : ℤ) : CheckedM Unit := do
  let r ← get
  let p := r.dataPtr
  set { r with dataPtr := p + size }
  if r.dataEnd < p + size then
    let _ ← getOrSkipChunked debug true p size

/-- The loop of `getBytes`. -/
def copyBuffered (debug : Bool) : ℕ → ℤ → ℕ → CheckedM (List UInt8)
  | 0, _, _ => throw (.thrown .diverged)
  | fuel + 1, p, dataLength => do
    let r ← get
    let n := r.dataEnd - p
    if n < dataLength then
      let copied := ByteMemory.bytes r.mem p n.toNat
      let p ← getOrSkipChunked debug false (p + n) 1
      return copied ++ (← copyBuffered debug fuel p (dataLength - n.toNat))
    else
      set { r with dataPtr := p + dataLength }
      return ByteMemory.bytes r.mem p dataLength

/-- A call of a decoder. -/
def run (debug : Bool) : ReadCall → CheckedM (List UInt8)
  | .bytes n => do
    let p ← bytes debug n
    let r ← get
    return ByteMemory.bytes r.mem p n
  | .peek n => do
    let p ← peek debug n
    let r ← get
    return ByteMemory.bytes r.mem p n
  | .skip n => do
    skip debug n
    return []
  | .getBytes n => do
    let r ← get
    copyBuffered debug (n + 1) r.dataPtr n

/-! ## The release build -/

theorem makeRoom_erases (start size : ℤ) : Erases (makeRoom false start size) (Reader.makeRoom start size) := by
  apply erases_get_bind
  intro r
  simp only [and_true]
  apply Erases.ite
  · exact (erases_set _).bind fun _ ↦ erases_pure _
  · apply Erases.ite
    · exact (erases_set _).bind fun _ ↦ (erases_pure _).check_bind
    · exact erases_pure _

theorem getFromStream_erases (start size : ℤ) :
    Erases (getFromStream false start size) (Reader.getFromStream start size) := by
  apply Erases.check_bind
  apply erases_get_bind
  intro r
  iterate 4 apply Erases.check_bind
  apply Erases.ite (erases_pure _)
  apply (makeRoom_erases start _).bind
  rintro ⟨p, dataEnd⟩
  apply (erases_unchecked _).bind
  intro nBytesRead
  apply Erases.check_bind
  exact (erases_modify _).bind fun _ ↦ erases_pure _

theorem skipBuffers_erases (bufferStart bufferSize : ℤ) (fuel : ℕ) (size : ℤ) :
    Erases (skipBuffers bufferStart bufferSize fuel size)
      (Reader.skipBuffers bufferStart bufferSize fuel size) := by
  induction fuel generalizing size with
  | zero => exact erases_throw _
  | succ fuel ih =>
    apply Erases.ite
    · exact (erases_unchecked _).bind fun _ ↦ (ih _).check_bind
    · exact erases_pure _

theorem skipStream_erases (start size : ℤ) :
    Erases (skipStream start size) (Reader.skipStream start size) := by
  apply Erases.check_bind
  apply erases_get_bind
  intro r
  iterate 2 apply Erases.check_bind
  apply Erases.ite (erases_set _)
  apply (skipBuffers_erases _ _ _ _).bind
  intro left
  apply Erases.check_bind
  apply (erases_unchecked _).bind
  intro szRead
  exact (erases_modify _).check_bind

theorem requestHeader_erases (skip : Bool) (start size length : ℤ) :
    Erases (requestHeader false skip start size length)
      (Reader.getFromStream start (headerRequest skip size length)) := by
  apply Erases.get_bind
  intro r
  cases skip with
  | true => exact (getFromStream_erases start _).check_bind
  | false =>
    apply Erases.check_bind
    apply (getFromStream_erases start _).bind_check
    exact fun p ↦ Erases.get_bind fun r' ↦ (erases_pure p).check_bind

theorem readChunkHeader_erases (skip : Bool) (size remaining : ℤ) (fuel : ℕ) (start length : ℤ) :
    Erases (readChunkHeader false skip size remaining fuel start length)
      (Reader.readChunkHeader skip size remaining fuel start length) := by
  induction fuel generalizing start length with
  | zero => exact erases_throw _
  | succ fuel ih =>
    apply (requestHeader_erases skip start size length).bind
    intro p
    apply erases_get_bind
    intro r
    generalize parseChunkHeader (slice r.mem (p + remaining) r.streamDataEnd) = found
    obtain ⟨_ | length', nextSize⟩ := found
    · exact Erases.ite (erases_throw _) (ih _ _)
    · exact erases_pure _

theorem leaveChunk_erases (skip : Bool) (start size remaining : ℤ) :
    Erases (leaveChunk skip start size remaining) (Reader.leaveChunk skip start size remaining) := by
  apply Erases.ite
  · exact (skipStream_erases start remaining).bind fun _ ↦ erases_get_bind fun r ↦ erases_pure _
  · exact erases_pure _

theorem passHeader_erases (skip : Bool) (start size remaining : ℤ) (length : ℕ) :
    Erases (passHeader skip start size remaining length)
      (if skip then pure (start + length) else unwrapHeader start remaining length) := by
  apply Erases.get_bind
  intro r
  apply Erases.ite
  · exact (erases_pure _).check_bind
  · exact (erases_unchecked _).check_bind

theorem enterChunk_erases (skip : Bool) (start size remaining : ℤ) :
    Erases (enterChunk false skip start size remaining) (Reader.enterChunk skip start size remaining) := by
  apply Erases.check_bind
  apply (leaveChunk_erases skip start size remaining).bind
  rintro ⟨p, left, remaining'⟩
  apply erases_get_bind
  intro r
  apply (readChunkHeader_erases skip left remaining' _ p _).bind
  rintro ⟨p', length, nextSize⟩
  apply Erases.check_bind
  have hpass := passHeader_erases skip p' left remaining' length
  cases skip with
  | true => exact hpass.bind fun p'' ↦ Erases.get_bind fun r' ↦ (erases_pure _).check_bind
  | false => exact hpass.bind fun p'' ↦ Erases.get_bind fun r' ↦ (erases_pure _).check_bind

theorem enterChunks_erases (skip : Bool) (fuel : ℕ) (start size remaining : ℤ) :
    Erases (enterChunks false skip fuel start size remaining)
      (Reader.enterChunks skip fuel start size remaining) := by
  induction fuel generalizing start size remaining with
  | zero => exact erases_throw _
  | succ fuel ih =>
    apply (enterChunk_erases skip start size remaining).bind
    rintro ⟨p, left, remaining'⟩
    exact Erases.ite (ih _ _ _) (erases_pure _)

theorem getOrSkipInChunk_erases (skip : Bool) (start size remaining : ℤ) :
    Erases (getOrSkipInChunk false skip start size remaining)
      (Reader.getOrSkipInChunk skip start size remaining) := by
  apply Erases.ite
  · apply (skipStream_erases start size).bind
    exact fun _ ↦ erases_get_bind fun r ↦ (erases_unchecked _).bind fun _ ↦ erases_pure _
  · apply (getFromStream_erases start size).bind
    exact fun p ↦ (erases_unchecked _).bind fun _ ↦ erases_pure _

theorem getOrSkipChunked_erases (skip : Bool) (start size : ℤ) :
    Erases (getOrSkipChunked false skip start size) (Reader.getOrSkipChunked skip start size) := by
  apply erases_get_bind
  intro r
  iterate 4 apply Erases.check_bind
  apply Erases.ite
  · iterate 2 apply Erases.check_bind
    apply (getOrSkipInChunk_erases skip start size _).bind_check
    exact fun p ↦ Erases.get_bind fun r' ↦ (erases_pure p).check_bind
  · apply (enterChunks_erases skip _ start size _).bind
    rintro ⟨p, left, remaining⟩
    apply (getOrSkipInChunk_erases skip p left remaining).bind_check
    exact fun p' ↦ Erases.get_bind fun r' ↦ (erases_pure p').check_bind

theorem copyBuffered_erases (fuel : ℕ) (p : ℤ) (n : ℕ) :
    Erases (copyBuffered false fuel p n) (Reader.copyBuffered .httpChunked fuel p n) := by
  induction fuel generalizing p n with
  | zero => exact erases_throw _
  | succ fuel ih =>
    apply erases_get_bind
    intro r
    apply Erases.ite
    · apply (getOrSkipChunked_erases false _ 1).bind
      exact fun p' ↦ (ih p' _).bind fun copied ↦ erases_pure _
    · exact (erases_set _).bind fun _ ↦ erases_pure _

/-- A release build does what the reader without assertions does, up to an assertion that fails. -/
theorem run_erases (call : ReadCall) : Erases (run false call) (call.run .httpChunked) := by
  cases call with
  | bytes n =>
    have hbytes : Erases (bytes false n) (Reader.bytes .httpChunked n) := by
      apply erases_get_bind
      intro r
      apply (erases_set _).bind
      intro _
      apply Erases.ite
      · apply (getOrSkipChunked_erases false _ _).bind
        exact fun p ↦ (erases_modify _).bind fun _ ↦ erases_pure p
      · exact erases_pure _
    exact hbytes.bind fun p ↦ erases_get_bind fun r ↦ erases_pure _
  | peek n =>
    have hpeek : Erases (peek false n) (Reader.peek .httpChunked n) := by
      apply erases_get_bind
      intro r
      apply Erases.ite
      · apply (getOrSkipChunked_erases false _ _).bind
        exact fun p ↦ (erases_modify _).bind fun _ ↦ erases_pure p
      · exact erases_pure _
    exact hpeek.bind fun p ↦ erases_get_bind fun r ↦ erases_pure _
  | skip n =>
    have hskip : Erases (skip false n) (Reader.skip .httpChunked n) := by
      apply erases_get_bind
      intro r
      apply (erases_set _).bind
      intro _
      apply Erases.ite
      · exact (getOrSkipChunked_erases true _ _).bind fun _ ↦ erases_pure _
      · exact erases_pure _
    exact hskip.bind fun _ ↦ erases_pure _
  | getBytes n => exact erases_get_bind fun r ↦ copyBuffered_erases (n + 1) r.dataPtr n

end DxApi.Reader.Checked
