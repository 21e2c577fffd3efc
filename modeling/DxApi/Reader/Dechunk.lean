import DxApi.Reader.DataReader

/-!
# De-chunking is exact

A `DataReaderHTTPchunked` is constructed over a buffer that may already hold the first payload bytes,
or takes over the reader of the response header. Every sequence of calls on it then returns what the
same sequence returns on the payload itself, whatever the chunks and the reads of the stream.
-/

namespace DxApi.Reader

open Exec ByteMemory

/-! ## Constructors -/

/-- `DataReaderBaseImpl(buffer, bufferSize, dataSize, source)` over memory that holds `raw`. -/
def constructBase (raw : DataReader) (buffer : ℤ) (bufferSize dataSize : ℕ) (source : InputStream) :
    DataReader :=
  { raw with
    bufferStart := buffer
    bufferEnd := buffer + bufferSize
    s := source
    dataPtr := buffer
    streamDataEnd := buffer + dataSize
    dataEnd := buffer + dataSize
    dataEnd0 := buffer + dataSize
    contentEnd := noContentLimit
    depth := 0 }

/-- `DataReaderHTTPchunked(buffer, bufferSize, dataSize, s)`: the buffered data is a chunk's. -/
def constructChunked (raw : DataReader) (buffer : ℤ) (bufferSize dataSize : ℕ) (source : InputStream) :
    DataReader :=
  let r := constructBase raw buffer bufferSize dataSize source
  { r with chunkEnd := r.dataEnd }

/-- `DataReaderHTTPchunked(DataReaderBaseImpl &&other)`: the line break that ends the response header
counts as the first two bytes of a chunk header. -/
def constructFromHeaderReader (other : DataReader) : DataReader :=
  let dataPtr := other.dataPtr - 2
  { other with
    mem := if other.bufferStart ≤ dataPtr then store other.mem dataPtr [0x0D, 0x0A] else other.mem
    dataPtr := dataPtr
    dataEnd := dataPtr
    chunkEnd := dataPtr }

/-- `r` is a reader right after its construction, with `payload` ahead. -/
inductive Constructed : DataReader → List UInt8 → Prop
  | buffered (raw : DataReader) (buffer : ℤ) (bufferSize dataSize : ℕ) (chunks : List Chunk)
      (schedule : List ℕ) (hfits : dataSize ≤ bufferSize) :
      Constructed (constructChunked raw buffer bufferSize dataSize ⟨wireOf chunks, schedule⟩)
        (ByteMemory.bytes raw.mem buffer dataSize ++ payloadOf chunks)
  | afterHeader (other : DataReader) (chunks : List Chunk) (hstart : other.bufferStart + 2 ≤ other.dataPtr)
      (hend : other.streamDataEnd ≤ other.bufferEnd) (hdata : other.dataPtr ≤ other.streamDataEnd)
      (hwire : 0x0D :: 0x0A :: (slice other.mem other.dataPtr other.streamDataEnd ++ other.s.wire) =
        wireOf chunks) :
      Constructed (constructFromHeaderReader other) (payloadOf chunks)

/-- The line break in front of the data is in memory. -/
theorem holds_constructFromHeaderReader {other : DataReader} (hstart : other.bufferStart + 2 ≤ other.dataPtr)
    (hend : other.streamDataEnd ≤ other.bufferEnd) (hdata : other.dataPtr ≤ other.streamDataEnd) :
    Holds (constructFromHeaderReader other) (other.dataPtr - 2)
      (0x0D :: 0x0A :: (slice other.mem other.dataPtr other.streamDataEnd ++ other.s.wire)) := by
  have hptr : other.bufferStart ≤ other.dataPtr - 2 := by omega
  refine ⟨hptr, ?_, hend, ?_⟩
  · simp only [constructFromHeaderReader]
    omega
  · simp only [constructFromHeaderReader, if_pos hptr]
    have hstored := slice_store other.mem (other.dataPtr - 2) [0x0D, 0x0A]
    have hcast : other.dataPtr - 2 + (([0x0D, 0x0A] : List UInt8).length : ℤ) = other.dataPtr := by
      simp
    rw [hcast] at hstored
    rw [slice_append _ other.dataPtr (by omega) hdata, hstored, slice_store_after (by simp)]
    rfl

theorem Constructed.ready {r : DataReader} {payload : List UInt8} (h : Constructed r payload) :
    Ready .httpChunked r r.dataPtr payload 0 := by
  cases h with
  | buffered raw buffer bufferSize dataSize chunks schedule hfits =>
    have hlength : ((ByteMemory.bytes raw.mem buffer dataSize).length : ℤ) = dataSize := by simp
    refine ⟨(at_chunked rfl).mpr ⟨ByteMemory.bytes raw.mem buffer dataSize ++ wireOf chunks, ?_, ?_⟩,
      ?_, fun habs ↦ by cases habs⟩
    · refine ⟨le_rfl, ?_, ?_, ?_⟩
      · simp [constructChunked, constructBase]
      · simpa [constructChunked, constructBase] using hfits
      · simp [constructChunked, constructBase, slice_add]
    · exact ⟨_, chunks, by simp [constructChunked, constructBase], rfl, rfl⟩
    · simp [constructChunked, constructBase, available, ReaderClass.isChunked, ReaderClass.isMsg]
  | afterHeader other chunks hstart hend hdata hwire =>
    refine ⟨(at_chunked rfl).mpr ⟨wireOf chunks, ?_, ?_⟩, ?_, fun habs ↦ by cases habs⟩
    · rw [← hwire]
      exact holds_constructFromHeaderReader hstart hend hdata
    · exact ⟨[], chunks, by simp [constructFromHeaderReader], rfl, rfl⟩
    · simp only [constructFromHeaderReader, available, ReaderClass.isChunked, ReaderClass.isMsg, if_true]
      rw [if_neg (by simp)]
      omega

/-! ## Calls -/

/-- A call of a decoder, with the number of bytes it asks for. -/
inductive ReadCall
  | bytes (n : ℕ)
  | peek (n : ℕ)
  | skip (n : ℕ)
  | getBytes (n : ℕ)

/-- The call on a reader; the result is the data it gives access to. -/
def ReadCall.run (cls : ReaderClass) : ReadCall → ReaderM (List UInt8)
  | .bytes n => do
    let p ← Reader.bytes cls n
    let r ← get
    return ByteMemory.bytes r.mem p n
  | .peek n => do
    let p ← Reader.peek cls n
    let r ← get
    return ByteMemory.bytes r.mem p n
  | .skip n => do
    Reader.skip cls n
    return []
  | .getBytes n => Reader.getBytes cls n

/-- How many bytes have to be ahead. -/
def ReadCall.size : ReadCall → ℕ
  | .bytes n | .peek n | .skip n | .getBytes n => n

/-- How far the call moves the logical position. -/
def ReadCall.consumed : ReadCall → ℕ
  | .peek _ => 0
  | .bytes n | .skip n | .getBytes n => n

/-- What the call returns of the payload `rest` ahead. -/
def ReadCall.result (rest : List UInt8) : ReadCall → List UInt8
  | .skip _ => []
  | .bytes n | .peek n | .getBytes n => rest.take n

/-- The contiguous bytes of the call and the longest chunk header fit into the buffer. -/
def ReadCall.Fits (cls : ReaderClass) (r : DataReader) : ReadCall → Prop
  | .bytes n | .peek n => HasRoom cls false n r
  | .skip n => HasRoom cls true n r
  | .getBytes _ => HasRoom cls false 1 r

instance (r : DataReader) : Decidable (HasBuffer r) := inferInstanceAs (Decidable (_ < _))

instance (cls : ReaderClass) (skip : Bool) (size : ℤ) (r : DataReader) :
    Decidable (HasRoom cls skip size r) := inferInstanceAs (Decidable (_ ≤ _))

instance (cls : ReaderClass) (r : DataReader) : (call : ReadCall) → Decidable (call.Fits cls r)
  | .bytes n | .peek n => inferInstanceAs (Decidable (HasRoom cls false n r))
  | .skip n => inferInstanceAs (Decidable (HasRoom cls true n r))
  | .getBytes _ => inferInstanceAs (Decidable (HasRoom cls false 1 r))

theorem ReadCall.run_spec {cls : ReaderClass} {r : DataReader} {rest : List UInt8} {left : ℤ}
    (call : ReadCall) (h : Ready cls r r.dataPtr rest left) (hbuffer : HasBuffer r) :
    wp (call.run cls)
      (fun data r' ↦ Moved r r' ∧ Ready cls r' r'.dataPtr (rest.drop call.consumed) (left - call.consumed) ∧
        data = call.result rest ∧ ¬ Exceeds cls rest left call.size)
      (fun _ _ ↦ Exceeds cls rest left call.size ∨ ¬ call.Fits cls r) r := by
  cases call with
  | bytes n =>
    simp only [run, wp_bind, wp_get, wp_pure]
    exact bytes_spec h hbuffer
  | peek n =>
    simp only [run, wp_bind, wp_get, wp_pure]
    simpa [consumed, result, size, Fits] using peek_spec h hbuffer
  | skip n =>
    simp only [run, wp_bind, wp_pure]
    simpa [consumed, result, size, Fits] using skip_spec h hbuffer
  | getBytes n => exact getBytes_spec h hbuffer

theorem ReadCall.fits_of_moved {cls : ReaderClass} {r r' : DataReader} {call : ReadCall} (h : Moved r r')
    (hfits : call.Fits cls r) : call.Fits cls r' := by
  cases call with
  | bytes n => exact h.hasRoom.mpr hfits
  | peek n => exact h.hasRoom.mpr hfits
  | skip n => exact h.hasRoom.mpr hfits
  | getBytes n => exact h.hasRoom.mpr hfits

theorem HasRoom.hasBuffer {skip : Bool} {size : ℤ} {r : DataReader} (hsize : 0 ≤ size)
    (h : HasRoom .httpChunked skip size r) : HasBuffer r := by
  have hchunked : ReaderClass.httpChunked.isChunked = true := rfl
  unfold HasRoom contiguous headerRequest chunkHeaderSizeMax at h
  rw [if_pos hchunked] at h
  unfold HasBuffer
  split at h <;> omega

theorem ReadCall.Fits.hasBuffer {r : DataReader} {call : ReadCall} (h : call.Fits .httpChunked r) :
    HasBuffer r := by
  cases call with
  | bytes n => exact HasRoom.hasBuffer (Int.natCast_nonneg n) h
  | peek n => exact HasRoom.hasBuffer (Int.natCast_nonneg n) h
  | skip n => exact HasRoom.hasBuffer (Int.natCast_nonneg n) h
  | getBytes n => exact HasRoom.hasBuffer zero_le_one h

/-- A skip or a copy of any length fits into a buffer with room for the look-ahead of a skip. -/
theorem ReadCall.fits_unbounded {r : DataReader} (h : 0x400 ≤ r.bufferEnd - r.bufferStart) (n : ℕ) :
    (ReadCall.skip n).Fits .httpChunked r ∧ (ReadCall.getBytes n).Fits .httpChunked r := by
  have hchunked : ReaderClass.httpChunked.isChunked = true := rfl
  constructor
  · rw [ReadCall.Fits, HasRoom, contiguous, if_pos hchunked, headerRequest, if_pos rfl]
    omega
  · rw [ReadCall.Fits, HasRoom, contiguous, if_pos hchunked, headerRequest, if_neg Bool.false_ne_true,
      chunkHeaderSizeMax]
    omega

/-- The results of the calls, one after another; the last one is missing if that call throws. -/
def trace (cls : ReaderClass) (r : DataReader) : List ReadCall → List (Option (List UInt8))
  | [] => []
  | call :: calls =>
    match call.run cls r with
    | .ok data r' => some data :: trace cls r' calls
    | .error _ _ => [none]

/-- The results of the calls on the payload itself, from the logical position `position`. -/
def expected (payload : List UInt8) : ℕ → List ReadCall → List (Option (List UInt8))
  | _, [] => []
  | position, call :: calls =>
    if position + call.size ≤ payload.length then
      some (call.result (payload.drop position)) :: expected payload (position + call.consumed) calls
    else [none]

theorem trace_of_ready {r : DataReader} {payload : List UInt8} {position : ℕ} {left : ℤ}
    {calls : List ReadCall} (h : Ready .httpChunked r r.dataPtr (payload.drop position) left)
    (hposition : position ≤ payload.length) (hbuffer : HasBuffer r)
    (hfits : ∀ call ∈ calls, call.Fits .httpChunked r) :
    trace .httpChunked r calls = expected payload position calls := by
  induction calls generalizing r position left with
  | nil => rfl
  | cons call calls ih =>
    have hexceeds : Exceeds .httpChunked (payload.drop position) left call.size ↔
        payload.length < position + call.size := by
      simp only [Exceeds, ReaderClass.isMsg, List.length_drop, Bool.false_eq_true, false_and, or_false]
      omega
    have hconsumed : call.consumed ≤ call.size := by cases call <;> simp [ReadCall.consumed, ReadCall.size]
    have hfit := hfits call (by simp)
    have hspec := call.run_spec h hbuffer
    simp only [hexceeds, hfit, not_true, or_false] at hspec
    unfold wp at hspec
    simp only [trace, expected]
    cases hrun : call.run .httpChunked r with
    | ok data r' =>
      rw [hrun] at hspec
      obtain ⟨hmoved, hready, hdata, hinside⟩ := hspec
      rw [List.drop_drop] at hready
      rw [if_pos (by omega)]
      dsimp only
      rw [hdata, ih hready (by omega) (hmoved.hasBuffer.mpr hbuffer) fun other hother ↦
        ReadCall.fits_of_moved hmoved (hfits other (by simp [hother]))]
    | error error r' =>
      rw [hrun] at hspec
      dsimp only at hspec ⊢
      rw [if_neg (by omega)]

/-- Every sequence of calls reads the payload at the position the calls before it have reached. -/
theorem dechunking_exact {r : DataReader} {payload : List UInt8} {calls : List ReadCall}
    (hconstructed : Constructed r payload) (hfits : ∀ call ∈ calls, call.Fits .httpChunked r) :
    trace .httpChunked r calls = expected payload 0 calls := by
  cases calls with
  | nil => rfl
  | cons call calls =>
    have hbuffer : HasBuffer r := (hfits call (by simp)).hasBuffer
    exact trace_of_ready hconstructed.ready (Nat.zero_le _) hbuffer hfits

/-- Two chunks, each call across the header between them, in a buffer of 40 bytes. -/
theorem dechunking_exact_across_chunks :
    let first : Chunk := ⟨[0x33], [1, 2, 3], by decide, by decide, by decide⟩
    let second : Chunk := ⟨[0x30, 0x34], [4, 5, 6, 7], by decide, by decide, by decide⟩
    let raw : DataReader := ⟨fun _ ↦ 0, 0, 0, 0, 0, 0, 0, ⟨[], []⟩, 0, 0, fun _ ↦ 0, fun _ ↦ false, 0⟩
    trace .httpChunked (constructChunked raw 100 40 0 ⟨wireOf [first, second], [1, 0, 9]⟩)
        [.peek 2, .skip 1, .bytes 4, .getBytes 2, .bytes 1] =
      [some [1, 2], some [], some [2, 3, 4, 5], some [6, 7], none] := by
  intro first second raw
  have hexact : trace .httpChunked (constructChunked raw 100 40 0 ⟨wireOf [first, second], [1, 0, 9]⟩)
      [.peek 2, .skip 1, .bytes 4, .getBytes 2, .bytes 1] = _ :=
    dechunking_exact (.buffered raw 100 40 0 [first, second] [1, 0, 9] (by decide)) (by decide)
  exact hexact

end DxApi.Reader
