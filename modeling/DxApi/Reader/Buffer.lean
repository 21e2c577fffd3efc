import DxApi.Lib.ByteMemory
import DxApi.Lib.Exec
import Mathlib.Logic.Function.Basic

/-!
# The read buffer of a data reader

`DataReaderBaseImpl` keeps a window of an input stream in a buffer: the unread bytes stand between a
read position and `streamDataEnd`, everything after them is still in the stream. `getFromStream`
makes a number of bytes contiguous at the read position and `skipStream` passes over bytes. The
specifications are stated for the whole unread data, buffered or not, and leave out where it lies.

A release build is modelled, in which `assert` does nothing.
-/

namespace DxApi.Reader

open Exec ByteMemory

/-! ## Data -/

/-- The bytes a peer has yet to deliver, and how many more than asked for each read delivers. -/
structure InputStream where
  wire : List UInt8
  schedule : List ℕ

/-- Why a call on a reader does not return. -/
inductive ReadError
  /-- The connection ended before the requested bytes. -/
  | disconnected
  /-- More bytes were requested than the buffer has room for: the source only asserts this. -/
  | requestTooBig
  /-- A loop of the source that does not end. -/
  | diverged
  | malformedChunkLength
  | readBeyondMessage (excess : ℤ)
  | skipBeyondMessage (excess : ℤ)
  | readBeyondContent (excess : ℤ)
  | skipBeyondContent (excess : ℤ)
  | depthOverflow (isArray : Bool)
  | depthUnderflow (isArray : Bool)
  | wrongType (isArray : Bool)
  | invalidTimestamp
  | alphanumericSizeTooBig
  | alphanumericLengthTooBig
  deriving DecidableEq, Repr

/-- The name of a container in an error text: `ct_names`. -/
def containerName (isArray : Bool) : String := if isArray then "Array" else "Object"

/-- `READER_MAX_NESTED_OBJECTS`. -/
def readerMaxNestedObjects : ℕ := 16

/-- The text of an exception. -/
def ReadError.what : ReadError → String
  | .disconnected => "read(): input stream disconnected"
  | .requestTooBig => " requested size is too big?"
  | .diverged => ""
  | .malformedChunkLength => "ERR: Malformed input detected while reading next HTTP chunk length" ++
      " (by the way, chunk extension field is not supported)!"
  | .readBeyondMessage excess => s!"Read beyond end of a message by {excess} bytes"
  | .skipBeyondMessage excess => s!"Read/skip beyond end of a message by {excess} bytes"
  | .readBeyondContent excess => s!"Read beyond end of a content block by {excess} bytes"
  | .skipBeyondContent excess =>
    s!"Attempt to skip data beyond the end of a content block by {excess} bytes"
  | .depthOverflow isArray => "DataReader.Open" ++ containerName isArray ++
      "(): nesting level can't be more than " ++ toString readerMaxNestedObjects ++ "!"
  | .depthUnderflow isArray => "DataReader.Close" ++ containerName isArray ++
      "(): nesting depth underflow. depth of 0 is unexpected!"
  | .wrongType isArray => "DataReader.Close" ++ containerName isArray ++
      "(): Container type mismatch. Close" ++ containerName (!isArray) ++ "() is expected!"
  | .invalidTimestamp => "getCompressedTimestamp() : Invalid timestamp data"
  | .alphanumericSizeTooBig => "Size is too big for AlphanumericInt"
  | .alphanumericLengthTooBig => "Alphanumeric field length is too big to fit into integer type"

/-- The content limit of a reader with no message: `UINTPTR_MAX - READ_BUFFER_ALLOC_SIZE`. -/
def noContentLimit : ℤ :=
  let readBufferSize := 0x3FF0
  let readBufferAllocSize := readBufferSize + 16 + 0xFFF + 128
  2 ^ 64 - 1 - readBufferAllocSize

/-- The data members of `DataReader`, `DataReaderBaseImpl` and `DataReaderHTTPchunked`. -/
structure DataReader where
  mem : Memory
  dataPtr : ℤ
  dataEnd : ℤ
  contentEnd : ℤ
  bufferStart : ℤ
  bufferEnd : ℤ
  streamDataEnd : ℤ
  s : InputStream
  dataEnd0 : ℤ
  depth : ℕ
  eOfs : ℕ → ℕ
  containerIsArray : ℕ → Bool
  chunkEnd : ℤ

/-- A member function of the reader. -/
abbrev ReaderM (α : Type) := EStateM ReadError DataReader α

/-! ## Member functions -/

/-- `InputStream::read`: at least `minSize` and at most `maxSize` bytes are written at `dest`. -/
def read (dest minSize maxSize : ℤ) : ReaderM ℤ := do
  let r ← get
  if maxSize < minSize then
    throw .requestTooBig
  else if r.s.wire.length < minSize then
    throw .disconnected
  else
    let count := (min (minSize + r.s.schedule.headD 0) (min maxSize r.s.wire.length)).toNat
    set { r with
      mem := store r.mem dest (r.s.wire.take count)
      s := { wire := r.s.wire.drop count, schedule := r.s.schedule.tail } }
    return (count : ℤ)

/-- The shift of unread data to the start of the buffer: eight bytes at once, then the rest. -/
def compact (mem : Memory) (bufferStart start : ℤ) (nBytesRemaining : ℕ) : Memory :=
  let mem := move mem bufferStart start 8
  if 8 < nBytesRemaining then
    move mem (bufferStart + 8) (start + 8) (nBytesRemaining - 8)
  else mem

/-- Where the unread bytes at `start` stand when `sizeNeeded` more are about to be read. -/
def makeRoom (start sizeNeeded : ℤ) : ReaderM (ℤ × ℤ) := do
  let r ← get
  let nBytesRemaining := r.streamDataEnd - start
  if nBytesRemaining = 0 then
    set { r with dataPtr := r.bufferStart }
    return (r.bufferStart, r.bufferStart)
  else if r.bufferEnd - r.streamDataEnd < sizeNeeded then
    set { r with
      mem := compact r.mem r.bufferStart start nBytesRemaining.toNat
      dataPtr := r.bufferStart }
    return (r.bufferStart, r.bufferStart + nBytesRemaining)
  else
    return (start, r.streamDataEnd)

/-- Make `sizeNeeded` bytes contiguous; the result is where they stand. -/
def getFromStream (start sizeNeeded : ℤ) : ReaderM ℤ := do
  let r ← get
  let nBytesRemaining := r.streamDataEnd - start
  if sizeNeeded ≤ nBytesRemaining then
    return start
  else
    let sizeNeeded := sizeNeeded - nBytesRemaining
    let (start, dataEnd) ← makeRoom start sizeNeeded
    let nBytesRead ← read dataEnd sizeNeeded (r.bufferEnd - dataEnd)
    -- the buffer is kept zero-terminated
    modify fun r ↦ { r with
      mem := store r.mem (dataEnd + nBytesRead) [0]
      streamDataEnd := dataEnd + nBytesRead }
    return start

/-- The loop of `skipStream`: whole buffers are read and dropped while more than one is left. -/
def skipBuffers (bufferStart bufferSize : ℤ) : ℕ → ℤ → ReaderM ℤ
  | 0, _ => throw .diverged
  | fuel + 1, size =>
    if bufferSize < size then do
      let _ ← read bufferStart bufferSize bufferSize
      skipBuffers bufferStart bufferSize fuel (size - bufferSize)
    else
      return size

/-- Pass over `size` bytes from `start`, no matter whether they are in the buffer. -/
def skipStream (start size : ℤ) : ReaderM Unit := do
  let r ← get
  let nBytesRemaining := r.streamDataEnd - start
  if size ≤ nBytesRemaining then
    set { r with dataPtr := start + size }
  else
    let bufferSize := r.bufferEnd - r.bufferStart
    let size ← skipBuffers r.bufferStart bufferSize (r.s.wire.length + 1) (size - nBytesRemaining)
    let szRead ← read r.bufferStart size bufferSize
    modify fun r ↦ { r with
      mem := store r.mem (r.bufferStart + szRead) [0]
      dataPtr := r.bufferStart + size
      streamDataEnd := r.bufferStart + szRead }

/-! ## The unread data -/

/-- From `p` on the reader has the bytes `raw`: some in the buffer, the rest in the stream. -/
structure Holds (r : DataReader) (p : ℤ) (raw : List UInt8) : Prop where
  bufferStart_le : r.bufferStart ≤ p
  le_streamDataEnd : p ≤ r.streamDataEnd
  streamDataEnd_le : r.streamDataEnd ≤ r.bufferEnd
  raw_eq : slice r.mem p r.streamDataEnd ++ r.s.wire = raw

/-- `r'` is `r` up to the buffer: its bytes, the data in it and the stream behind it. -/
def Refilled (r r' : DataReader) : Prop :=
  ∃ mem dataPtr streamDataEnd s, r' = { r with mem, dataPtr, streamDataEnd, s }

theorem Refilled.refl (r : DataReader) : Refilled r r := ⟨_, _, _, _, rfl⟩

theorem Refilled.trans {r₁ r₂ r₃ : DataReader} (h : Refilled r₁ r₂) (h' : Refilled r₂ r₃) :
    Refilled r₁ r₃ := by
  obtain ⟨_, _, _, _, rfl⟩ := h
  obtain ⟨_, _, _, _, rfl⟩ := h'
  exact ⟨_, _, _, _, rfl⟩

variable {r : DataReader} {start size : ℤ} {raw : List UInt8}

theorem Holds.length_eq (h : Holds r start raw) :
    (raw.length : ℤ) = (r.streamDataEnd - start) + r.s.wire.length := by
  have hle := h.le_streamDataEnd
  rw [← h.raw_eq, List.length_append, length_slice]
  push_cast
  omega

theorem Holds.slice_isPrefix (h : Holds r start raw) : slice r.mem start r.streamDataEnd <+: raw :=
  ⟨_, h.raw_eq⟩

/-- Bytes inside the buffered data are passed over by moving the position. -/
theorem Holds.advance (count : ℕ) (h : Holds r start raw) (hle : start + count ≤ r.streamDataEnd) :
    Holds r (start + count) (raw.drop count) := by
  refine ⟨by have := h.bufferStart_le; omega, hle, h.streamDataEnd_le, ?_⟩
  rw [← h.raw_eq, List.drop_append_of_le_length (by rw [length_slice]; omega), drop_slice _ _ hle]

/-! ## Specifications -/

theorem read_spec {dest minSize maxSize : ℤ} (hmin : 0 ≤ minSize) :
    wp (read dest minSize maxSize)
      (fun count r' ↦ ∃ n : ℕ, count = n ∧ minSize ≤ n ∧ n ≤ maxSize ∧ n ≤ r.s.wire.length ∧
        ∃ schedule, r' = { r with
          mem := store r.mem dest (r.s.wire.take n)
          s := { wire := r.s.wire.drop n, schedule := schedule } })
      (fun error _ ↦ (r.s.wire.length < minSize ∧ error = .disconnected) ∨ maxSize < minSize) r := by
  simp only [read, wp_bind, wp_get, wp_ite, wp_throw, wp_set, wp_pure, not_lt, and_true]
  refine ⟨.inr, fun hle ↦ ⟨.inl, fun hlen ↦ ?_⟩⟩
  refine ⟨_, rfl, ?_, ?_, ?_, _, rfl⟩ <;> omega

/-- The word move never touches what the block move after it reads: the data moves down. -/
theorem slice_compact (mem : Memory) {bufferStart : ℤ} (h : bufferStart ≤ start) (count : ℕ) :
    slice (compact mem bufferStart start count) bufferStart (bufferStart + count) =
      slice mem start (start + count) := by
  unfold compact
  by_cases hbig : 8 < count
  · simp only [if_pos hbig]
    have hfirst : slice (move mem bufferStart start 8) bufferStart (bufferStart + 8) =
        slice mem start (start + 8) := slice_move mem bufferStart start 8
    have hsecond := slice_move (move mem bufferStart start 8) (bufferStart + 8) (start + 8) (count - 8)
    have hafter : slice (move mem bufferStart start 8) (start + 8) (start + count) =
        slice mem (start + 8) (start + count) := slice_move_after (by push_cast; omega)
    have htarget : bufferStart + 8 + ((count - 8 : ℕ) : ℤ) = bufferStart + count := by omega
    have hsource : start + 8 + ((count - 8 : ℕ) : ℤ) = start + count := by omega
    rw [htarget, hsource, hafter] at hsecond
    rw [slice_append _ (bufferStart + 8) (by omega) (by omega),
      slice_move_before le_rfl, hfirst, hsecond, ← slice_append _ _ (by omega) (by omega)]
  · simp only [if_neg hbig]
    exact slice_move_sub _ _ _ (by omega)

theorem Holds.slice_compact (h : Holds r start raw) :
    slice (compact r.mem r.bufferStart start (r.streamDataEnd - start).toNat) r.bufferStart
      (r.bufferStart + (r.streamDataEnd - start)) = slice r.mem start r.streamDataEnd := by
  have hstop := h.le_streamDataEnd
  have hcast : ((r.streamDataEnd - start).toNat : ℤ) = r.streamDataEnd - start := by omega
  have hslice := Reader.slice_compact r.mem h.bufferStart_le (r.streamDataEnd - start).toNat
  rwa [hcast, add_sub_cancel] at hslice

/-- Room is made without changing the unread data, and as much as the buffer can give. -/
theorem makeRoom_spec (h : Holds r start raw) :
    wp (makeRoom start size)
      (fun place r' ↦ ∃ mem dataPtr, r' = { r with mem, dataPtr } ∧
        r.bufferStart ≤ place.1 ∧ place.2 - place.1 = r.streamDataEnd - start ∧
        (r.streamDataEnd - start + size ≤ r.bufferEnd - r.bufferStart → place.2 + size ≤ r.bufferEnd) ∧
        slice mem place.1 place.2 = slice r.mem start r.streamDataEnd)
      (fun _ _ ↦ False) r := by
  have hslice := h.slice_compact
  obtain ⟨hstart, hstop, hend, -⟩ := h
  simp only [makeRoom, wp_bind, wp_get, wp_ite, wp_set, wp_pure]
  refine ⟨fun hnone ↦ ?_, fun _ ↦ ⟨fun hfull ↦ ?_, fun hroom ↦ ?_⟩⟩
  · refine ⟨_, _, rfl, le_rfl, by omega, by omega, ?_⟩
    rw [slice_self, slice_of_le _ (by omega)]
  · exact ⟨_, _, rfl, le_rfl, by omega, by omega, hslice⟩
  · exact ⟨r.mem, r.dataPtr, rfl, hstart, trivial, by omega, rfl⟩

/-- The unread data stands at `p` and what a read brings stands behind it. -/
theorem Holds.refill {p dataEnd dataPtr : ℤ} {mem : Memory} {n : ℕ} {schedule : List ℕ} (h : Holds r start raw)
    (hp : r.bufferStart ≤ p) (hcount : dataEnd - p = r.streamDataEnd - start)
    (hslice : slice mem p dataEnd = slice r.mem start r.streamDataEnd) (hmax : dataEnd + n ≤ r.bufferEnd)
    (hwire : n ≤ r.s.wire.length) :
    Holds { r with
      mem := store (store mem dataEnd (r.s.wire.take n)) (dataEnd + n) [0]
      dataPtr := dataPtr
      streamDataEnd := dataEnd + n
      s := { wire := r.s.wire.drop n, schedule := schedule } } p raw := by
  have hle := h.le_streamDataEnd
  have hcopied : (List.take n r.s.wire).length = n := List.length_take_of_le hwire
  refine ⟨hp, by simp only; omega, hmax, ?_⟩
  rw [slice_store_before le_rfl, slice_append _ dataEnd (by omega) (by omega),
    slice_store_before le_rfl, hslice]
  have hread := slice_store mem dataEnd (r.s.wire.take n)
  rw [hcopied] at hread
  rw [hread, List.append_assoc, List.take_append_drop, h.raw_eq]

/-- `getFromStream` gives `size` contiguous bytes of the same unread data, unless it is shorter or
the buffer is. -/
theorem getFromStream_spec (h : Holds r start raw) :
    wp (getFromStream start size)
      (fun p r' ↦ Refilled r r' ∧ Holds r' p raw ∧ p + size ≤ r'.streamDataEnd)
      (fun _ _ ↦ raw.length < size ∨ r.bufferEnd - r.bufferStart < size) r := by
  have hlength := h.length_eq
  have hle := h.le_streamDataEnd
  simp only [getFromStream, wp_bind, wp_get, wp_ite, wp_pure]
  refine ⟨fun hbuffered ↦ ⟨Refilled.refl r, h, by omega⟩, fun hshort ↦ ?_⟩
  refine wp_mono (makeRoom_spec h) ?_ (fun _ _ ↦ False.elim)
  rintro ⟨p, dataEnd⟩ _ ⟨mem, dataPtr, rfl, hp, hcount, hroom, hslice⟩
  refine wp_mono (read_spec (by omega)) ?_ (fun _ _ hlt ↦ by
    simp only at hroom hlt ⊢
    omega)
  rintro _ _ ⟨n, rfl, hmin, hmax, hwire, schedule, rfl⟩
  simp only at hp hcount hroom hslice hmax hwire
  simp only [wp_modify]
  exact ⟨⟨_, _, _, _, rfl⟩, h.refill hp hcount hslice (by omega) hwire, by omega⟩

/-- Whole buffers go by until at most one is left; the bytes dropped are the first of the stream. -/
theorem skipBuffers_spec {bufferStart bufferSize : ℤ} (hbuffer : 0 < bufferSize) {fuel : ℕ}
    (hfuel : r.s.wire.length < fuel) (hsize : 0 < size) :
    wp (skipBuffers bufferStart bufferSize fuel size)
      (fun left r' ↦ 0 < left ∧ left ≤ bufferSize ∧ ∃ gone : ℕ, size = left + gone ∧
        ∃ mem schedule, r' = { r with mem, s := { wire := r.s.wire.drop gone, schedule } })
      (fun _ _ ↦ r.s.wire.length < size) r := by
  induction fuel generalizing r size with
  | zero => omega
  | succ fuel ih =>
    simp only [skipBuffers, wp_ite, wp_bind, wp_pure, not_lt]
    refine ⟨fun hmore ↦ ?_, fun hlast ↦ ⟨hsize, hlast, 0, by simp, r.mem, r.s.schedule, rfl⟩⟩
    refine wp_mono (read_spec hbuffer.le) ?_ (fun _ _ hlt ↦ by omega)
    rintro _ _ ⟨n, rfl, hmin, hmax, hwire, schedule, rfl⟩
    refine wp_mono (ih (r := { r with
        mem := store r.mem bufferStart (r.s.wire.take n)
        s := { wire := r.s.wire.drop n, schedule := schedule } }) ?_ (by omega)) ?_ ?_
    · simp only [List.length_drop]
      omega
    · rintro left _ ⟨hpos, hle, gone, hgone, mem, schedule', rfl⟩
      refine ⟨hpos, hle, n + gone, by push_cast; omega, mem, schedule', ?_⟩
      simp only [List.drop_drop]
    · intro _ _ hlt
      simp only [List.length_drop] at hlt
      omega

/-- `skipStream` leaves the position after `size` bytes of the unread data, unless it is shorter. -/
theorem skipStream_spec (h : Holds r start raw) (hsize : 0 ≤ size)
    (hbuffer : r.bufferStart < r.bufferEnd) :
    wp (skipStream start size)
      (fun _ r' ↦ Refilled r r' ∧ Holds r' r'.dataPtr (raw.drop size.toNat) ∧ size ≤ raw.length)
      (fun _ _ ↦ raw.length < size) r := by
  have hlength := h.length_eq
  have hle := h.le_streamDataEnd
  simp only [skipStream, wp_bind, wp_get, wp_ite, wp_set]
  refine ⟨fun hbuffered ↦ ⟨⟨_, _, _, _, rfl⟩, ?_, by omega⟩, fun hshort ↦ ?_⟩
  · have hcast : start + size = start + (size.toNat : ℤ) := by omega
    obtain ⟨hstart, hstop, hend, hraw⟩ := h.advance size.toNat (by omega)
    exact ⟨by simp only; omega, by simp only; omega, hend, by simpa only [hcast] using hraw⟩
  refine wp_mono (skipBuffers_spec (by omega) (Nat.lt_succ_self _) (by omega)) ?_
    (fun _ _ hlt ↦ by omega)
  rintro left _ ⟨hpos, hfit, gone, hgone, mem, schedule, rfl⟩
  refine wp_mono (read_spec hpos.le) ?_ (fun _ _ hlt ↦ by
    simp only [List.length_drop] at hlt
    omega)
  rintro _ _ ⟨n, rfl, hmin, hmax, hwire, schedule', rfl⟩
  simp only [List.length_drop] at hmax hwire
  simp only [wp_modify]
  refine ⟨⟨_, _, _, _, rfl⟩, ⟨by simp only; omega, by simp only; omega, by simp only; omega, ?_⟩,
    by omega⟩
  have hleft : r.bufferStart + left = r.bufferStart + (left.toNat : ℤ) := by omega
  have hcopied : ((r.s.wire.drop gone).take n).length = n := by
    rw [List.length_take, List.length_drop]
    omega
  have hread := slice_store mem r.bufferStart ((r.s.wire.drop gone).take n)
  rw [hcopied] at hread
  have htotal : size.toNat = (slice r.mem start r.streamDataEnd).length + (gone + left.toNat) := by
    rw [length_slice]
    omega
  simp only
  rw [slice_store_before le_rfl, hleft, ← drop_slice _ _ (by omega), hread, ← h.raw_eq, htotal,
    List.drop_length_add_append, ← List.drop_append_of_le_length (by omega),
    List.take_append_drop, List.drop_drop]

end DxApi.Reader
