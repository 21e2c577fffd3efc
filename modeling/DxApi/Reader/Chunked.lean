import DxApi.Reader.Buffer
import DxApi.Reader.ChunkHeader

/-!
# Reading through HTTP chunks

`DataReaderHTTPchunked` removes chunk headers from the buffered data as a read or a skip crosses
them. A read leaves the unread bytes before a header and the bytes after it contiguous: it moves the
first ones up over the header, or the last ones down over it. The specification of
`getOrSkipChunked` speaks of the payload alone: where the chunks are cut and what each read of the
stream delivers does not show. It is a case of one in which the end of the data has not been sent yet,
so that it also shows how far a request has to wait.
-/

namespace DxApi.Reader

open Exec ByteMemory

/-! ## The source -/

/-- `CHUNK_HEADER_SIZE_MIN`. -/
def chunkHeaderSizeMin : ℤ := 2 + 1 + 2

/-- `CHUNK_HEADER_SIZE_MAX`. -/
def chunkHeaderSizeMax : ℤ := 2 + 7 + 2

/-- How many contiguous bytes a look for a header asks for. -/
def headerRequest (skip : Bool) (size chunkHeaderLength : ℤ) : ℤ :=
  if skip then min (size + chunkHeaderLength) 0x400 else size + chunkHeaderLength

/-- All bytes from `start` on, buffered or not. -/
def unread (r : DataReader) (start : ℤ) : ℕ :=
  (r.streamDataEnd - start).toNat + r.s.wire.length

/-- The inner loop of `getOrSkipChunked`: buffer more until the header after `remainingSize` bytes is
complete. The result is where the bytes stand, the length of the header and the chunk's size. -/
def readChunkHeader (skip : Bool) (size remainingSize : ℤ) : ℕ → ℤ → ℤ → ReaderM (ℤ × ℕ × ℕ)
  | 0, _, _ => throw .diverged
  | fuel + 1, start, chunkHeaderLength => do
    let start ← getFromStream start (headerRequest skip size chunkHeaderLength)
    let r ← get
    match parseChunkHeader (slice r.mem (start + remainingSize) r.streamDataEnd) with
    | (some length, nextSize) => return (start, length, nextSize)
    | (none, nextSize) =>
      if chunkSizeMax < nextSize then
        throw .malformedChunkLength
      else
        readChunkHeader skip size remainingSize fuel start (chunkHeaderLength + 2)

/-- Make the `remainingSize` bytes before a header and the bytes after it contiguous. -/
def unwrapHeader (start remainingSize : ℤ) (chunkHeaderLength : ℕ) : ReaderM ℤ := do
  let r ← get
  let headerStart := start + remainingSize
  let headerEnd := headerStart + chunkHeaderLength
  if headerEnd + 8 < r.streamDataEnd then
    -- enough of the next chunk is buffered: the bytes before the header move up over it
    if remainingSize ≠ 0 then
      if remainingSize ≤ 8 then
        set { r with mem := move r.mem (headerEnd - 8) (headerStart - 8) 8 }
      else
        set { r with mem := move r.mem (headerEnd - remainingSize) start remainingSize.toNat }
    return start + chunkHeaderLength
  else
    set { r with
      mem := move r.mem headerStart headerEnd 8
      streamDataEnd := r.streamDataEnd - chunkHeaderLength }
    return start

/-- The first lines of the loop body: a skip passes over the rest of the chunk at once. -/
def leaveChunk (skip : Bool) (start size remainingSize : ℤ) : ReaderM (ℤ × ℤ × ℤ) :=
  if skip then do
    skipStream start remainingSize
    let r ← get
    return (r.dataPtr, size - remainingSize, 0)
  else
    return (start, size, remainingSize)

/-- The body of the outer loop of `getOrSkipChunked`. -/
def enterChunk (skip : Bool) (start size remainingSize : ℤ) : ReaderM (ℤ × ℤ × ℤ) := do
  let (start, size, remainingSize) ← leaveChunk skip start size remainingSize
  let r ← get
  let (start, length, nextSize) ←
    readChunkHeader skip size remainingSize (unread r start + 1) start chunkHeaderSizeMin
  let start ← if skip then pure (start + length) else unwrapHeader start remainingSize length
  return (start, size, remainingSize + nextSize)

/-- The outer loop of `getOrSkipChunked`. -/
def enterChunks (skip : Bool) : ℕ → ℤ → ℤ → ℤ → ReaderM (ℤ × ℤ × ℤ)
  | 0, _, _, _ => throw .diverged
  | fuel + 1, start, size, remainingSize => do
    let (start, size, remainingSize) ← enterChunk skip start size remainingSize
    if remainingSize < size then
      enterChunks skip fuel start size remainingSize
    else
      return (start, size, remainingSize)

/-- Both last lines of `getOrSkipChunked`: the end of the chunk is known again. -/
def setChunkEnd (chunkEnd : ℤ) : ReaderM Unit :=
  modify fun r ↦ { r with chunkEnd := chunkEnd, dataEnd := min r.streamDataEnd chunkEnd }

/-- Get or skip `size` bytes of a chunk that has as many left. -/
def getOrSkipInChunk (skip : Bool) (start size remainingSize : ℤ) : ReaderM ℤ := do
  if skip then
    skipStream start size
    let r ← get
    setChunkEnd (r.dataPtr + (remainingSize - size))
    return r.dataPtr
  else
    let start ← getFromStream start size
    setChunkEnd (start + remainingSize)
    return start

/-- Get or skip `size` bytes that reach beyond the buffered part of the chunk. -/
def getOrSkipChunked (skip : Bool) (start size : ℤ) : ReaderM ℤ := do
  let r ← get
  let remainingSize := r.chunkEnd - start
  if size ≤ remainingSize then
    getOrSkipInChunk skip start size remainingSize
  else
    let (start, size, remainingSize) ← enterChunks skip (unread r start + 1) start size remainingSize
    getOrSkipInChunk skip start size remainingSize

/-! ## The payload ahead -/

/-- With `remaining` bytes left of the current chunk, the data `raw` carries the payload `rest`. -/
def InChunk (remaining : ℤ) (raw rest : List UInt8) : Prop :=
  ∃ head chunks, (head.length : ℤ) = remaining ∧ raw = head ++ wireOf chunks ∧
    rest = head ++ payloadOf chunks

/-- `r'` is `r` up to the buffer and the place of the chunk in it. -/
def Relocated (r r' : DataReader) : Prop :=
  ∃ mem dataPtr dataEnd streamDataEnd s chunkEnd,
    r' = { r with mem, dataPtr, dataEnd, streamDataEnd, s, chunkEnd }

theorem Refilled.relocated {r₁ r₂ r₃ : DataReader} (h : Refilled r₁ r₂) (h' : Relocated r₂ r₃) :
    Relocated r₁ r₃ := by
  obtain ⟨_, _, _, _, rfl⟩ := h
  obtain ⟨_, _, _, _, _, _, rfl⟩ := h'
  exact ⟨_, _, _, _, _, _, rfl⟩

variable {remaining : ℤ} {raw rest head : List UInt8} {chunks : List Chunk}

theorem InChunk.drop (h : InChunk remaining raw rest) (count : ℕ) (hle : count ≤ remaining) :
    InChunk (remaining - count) (raw.drop count) (rest.drop count) := by
  obtain ⟨head, chunks, hlength, rfl, rfl⟩ := h
  refine ⟨head.drop count, chunks, ?_, ?_, ?_⟩
  · rw [List.length_drop]
    omega
  · rw [List.drop_append_of_le_length (by omega)]
  · rw [List.drop_append_of_le_length (by omega)]

theorem InChunk.take_eq (h : InChunk remaining raw rest) (count : ℕ) (hle : count ≤ remaining) :
    raw.take count = rest.take count := by
  obtain ⟨head, chunks, hlength, rfl, rfl⟩ := h
  rw [List.take_append_of_le_length (by omega), List.take_append_of_le_length (by omega)]

/-- The data and the place in the chunk determine the payload. -/
theorem InChunk.unique {other : List UInt8} (h : InChunk remaining raw rest)
    (h' : InChunk remaining raw other) : rest = other := by
  obtain ⟨head, chunks, hlength, rfl, rfl⟩ := h
  obtain ⟨head', chunks', hlength', hraw, rfl⟩ := h'
  obtain ⟨rfl, hwire⟩ := List.append_inj hraw (by omega)
  rw [payloadOf_eq_of_wireOf_eq hwire]

/-! ## How much has to be sent -/

variable {remaining' : ℤ} {unsent head' : List UInt8} {chunks' : List Chunk} {r : DataReader}
  {start size : ℤ} {skip : Bool}

/-- How many bytes of the data carry the first `size` bytes of the payload. -/
def reach (remaining : ℤ) : List Chunk → ℤ → ℤ
  | [], size => size
  | chunk :: chunks, size =>
    if size ≤ remaining then size
    else remaining + chunk.header.length + reach chunk.data.length chunks (size - remaining)

/-- The data ahead with its chunks named: all but `unsent` is buffered or in the stream. -/
def Underway (r : DataReader) (start : ℤ) (head : List UInt8) (chunks : List Chunk) (unsent : List UInt8) :
    Prop :=
  ∃ raw, Holds r start raw ∧ raw ++ unsent = head ++ wireOf chunks

/-- The first `size` bytes of the payload are not among the bytes `unsent` at the end of the data. -/
def Reaches (head : List UInt8) (chunks : List Chunk) (unsent : List UInt8) (size : ℤ) : Prop :=
  reach head.length chunks size + unsent.length ≤ (head ++ wireOf chunks).length

theorem le_reach : size ≤ reach remaining chunks size := by
  induction chunks generalizing remaining size with
  | nil => exact le_rfl
  | cons chunk chunks ih =>
    have hrest := @ih chunk.data.length (size - remaining)
    rw [reach]
    split <;> omega

theorem reach_of_le (h : size ≤ remaining) : reach remaining chunks size = size := by
  cases chunks with
  | nil => rfl
  | cons chunk chunks => rw [reach, if_pos h]

/-- The bytes left of a chunk count for themselves. -/
theorem reach_sub (gone : ℤ) :
    reach (remaining - gone) chunks (size - gone) = reach remaining chunks size - gone := by
  cases chunks with
  | nil => rfl
  | cons chunk chunks =>
    have hcount : size - gone - (remaining - gone) = size - remaining := by ring
    simp only [reach, sub_le_sub_iff_right, hcount]
    split <;> ring

/-- What lies beyond the chunk is one header further away. -/
theorem reach_cons {chunk : Chunk} (h : remaining < size) :
    reach remaining (chunk :: chunks) size =
      chunk.header.length + reach (remaining + chunk.data.length) chunks size := by
  have hsub := @reach_sub (remaining + chunk.data.length) chunks size remaining
  rw [add_sub_cancel_left] at hsub
  rw [reach, if_neg (not_le.mpr h), hsub]
  ring

/-- With all data sent, all of the payload is. -/
theorem reaches_nil (h : size ≤ (head ++ payloadOf chunks).length) : Reaches head chunks [] size := by
  rw [Reaches, List.length_nil, Nat.cast_zero, add_zero]
  induction chunks generalizing head with
  | nil => simpa [reach] using h
  | cons chunk chunks ih =>
    by_cases hinside : size ≤ head.length
    · rw [reach_of_le hinside, List.length_append]
      push_cast
      omega
    · have hrest := @ih (head ++ chunk.data) (by simpa using h)
      rw [reach_cons (not_le.mp hinside)]
      simp only [wireOf_cons, List.length_append, Nat.cast_add] at hrest ⊢
      omega

theorem Reaches.of_sent {raw : List UInt8} (h : raw ++ unsent = head ++ wireOf chunks) :
    Reaches head chunks unsent size ↔ reach head.length chunks size ≤ raw.length := by
  rw [Reaches, ← h, List.length_append]
  push_cast
  exact add_le_add_iff_right _

theorem Reaches.exists_cons (h : Reaches head chunks unsent size) (hsize : head.length < size) :
    ∃ chunk others, chunks = chunk :: others := by
  cases chunks with
  | nil =>
    simp only [Reaches, reach, wireOf_nil, List.append_nil] at h
    omega
  | cons chunk others => exact ⟨chunk, others, rfl⟩

/-- A request for the payload ahead takes the reader on: `gone` bytes of payload are passed over, and
where the payload from `size` bytes on lies in the data has not changed. -/
structure Continues (head : List UInt8) (chunks : List Chunk) (size : ℤ) (gone : ℕ) (head' : List UInt8)
    (chunks' : List Chunk) : Prop where
  payload_eq : head' ++ payloadOf chunks' = (head ++ payloadOf chunks).drop gone
  gone_le : gone ≤ (head ++ payloadOf chunks).length
  reaches_iff : ∀ (unsent : List UInt8) (n : ℤ), size ≤ n →
    (Reaches head' chunks' unsent (n - gone) ↔ Reaches head chunks unsent n)

theorem Continues.refl (head : List UInt8) (chunks : List Chunk) (size : ℤ) :
    Continues head chunks size 0 head chunks :=
  ⟨rfl, Nat.zero_le _, fun _ _ _ ↦ by rw [Nat.cast_zero, sub_zero]⟩

theorem Continues.trans {gone gone' : ℕ} {head'' : List UInt8} {chunks'' : List Chunk}
    (h : Continues head chunks size gone head' chunks')
    (h' : Continues head' chunks' (size - gone) gone' head'' chunks'') :
    Continues head chunks size (gone + gone') head'' chunks'' := by
  refine ⟨?_, ?_, fun unsent n hn ↦ ?_⟩
  · rw [h'.payload_eq, h.payload_eq, List.drop_drop]
  · have hle := h.gone_le
    have hle' := h'.gone_le
    rw [h.payload_eq, List.length_drop] at hle'
    omega
  · have hiff := h'.reaches_iff unsent (n - gone) (by omega)
    rw [← h.reaches_iff unsent n hn, ← hiff, Nat.cast_add, Int.sub_sub]

theorem continues_drop {gone : ℕ} (h : gone ≤ head.length) :
    Continues head chunks size gone (head.drop gone) chunks := by
  refine ⟨(List.drop_append_of_le_length h).symm, ?_, fun unsent n _ ↦ ?_⟩
  · rw [List.length_append]
    omega
  · have hlength : ((head.drop gone).length : ℤ) = head.length - gone := by
      rw [List.length_drop]
      omega
    simp only [Reaches, List.length_append, Nat.cast_add, hlength, reach_sub]
    constructor <;> intro hreach <;> omega

theorem continues_cons {chunk : Chunk} (h : head.length < size) :
    Continues head (chunk :: chunks) size 0 (head ++ chunk.data) chunks := by
  refine ⟨by simp, Nat.zero_le _, fun unsent n hn ↦ ?_⟩
  rw [Nat.cast_zero, sub_zero, Reaches, Reaches, reach_cons (by omega)]
  simp only [wireOf_cons, List.length_append, Nat.cast_add]
  constructor <;> intro hreach <;> omega

theorem Underway.length_eq (h : Underway r start head chunks unsent) :
    (r.streamDataEnd - start) + r.s.wire.length + unsent.length = (head ++ wireOf chunks).length := by
  obtain ⟨raw, hholds, hraw⟩ := h
  have hlength := hholds.length_eq
  rw [← hraw, List.length_append]
  push_cast
  omega

theorem Underway.le_streamDataEnd (h : Underway r start head chunks unsent) : start ≤ r.streamDataEnd := by
  obtain ⟨raw, hholds, -⟩ := h
  exact hholds.le_streamDataEnd

/-- Bytes that are there and left of the chunk are passed over. -/
theorem drop_sent {raw tail : List UInt8} {count : ℕ} (h : raw ++ unsent = head ++ tail)
    (hraw : count ≤ raw.length) (hhead : count ≤ head.length) :
    raw.drop count ++ unsent = head.drop count ++ tail := by
  rw [← List.drop_append_of_le_length hraw, h, List.drop_append_of_le_length hhead]

/-! ## Headers -/

/-- The room a call of `getOrSkipChunked` needs: the request and the longest header. -/
def Fits (skip : Bool) (size : ℤ) (r : DataReader) : Prop :=
  headerRequest skip size chunkHeaderSizeMax ≤ r.bufferEnd - r.bufferStart

theorem headerRequest_le {length : ℤ} (h : length ≤ chunkHeaderSizeMax) :
    headerRequest skip size length ≤ headerRequest skip size chunkHeaderSizeMax := by
  unfold headerRequest
  split <;> omega

/-- A look for a header asks for one byte more than what is before the header and the header itself. -/
theorem le_headerRequest {length : ℤ} (hsize : remaining < size) (hskip : skip = true → remaining = 0)
    (hmax : length ≤ 11) : remaining + length + 1 ≤ headerRequest skip size length := by
  unfold headerRequest
  split
  · next hskips =>
    have hnothing := hskip hskips
    omega
  · omega

theorem headerRequest_le_add {length : ℤ} : headerRequest skip size length ≤ size + length := by
  unfold headerRequest
  split <;> omega

theorem Refilled.buffer_pos {r' : DataReader} (h : Refilled r r') (hbuffer : r.bufferStart < r.bufferEnd) :
    r'.bufferStart < r'.bufferEnd := by
  obtain ⟨_, _, _, _, rfl⟩ := h
  exact hbuffer

theorem Fits.mono {size' : ℤ} {r' : DataReader} (h : Fits skip size r) (hle : size' ≤ size)
    (hrefilled : Refilled r r') : Fits skip size' r' := by
  obtain ⟨_, _, _, _, rfl⟩ := hrefilled
  unfold Fits headerRequest at *
  cases skip with
  | true =>
    simp only [if_true] at h ⊢
    omega
  | false =>
    simp only [Bool.false_eq_true, if_false] at h ⊢
    omega

/-- The header at the front of the buffered data is parsed when it is complete; otherwise it is longer
than the next look asks for. -/
theorem parseChunkHeader_buffered {available : List UInt8} {length : ℤ} (hpre : available <+: wireOf chunks)
    (hmin : 5 ≤ length) (hmore : length + 1 ≤ available.length) :
    ∃ chunk others, chunks = chunk :: others ∧
      ((chunk.header.length ≤ available.length ∧
          parseChunkHeader available = (some chunk.header.length, chunk.data.length)) ∨
        (length + 2 ≤ chunk.header.length ∧
          ∃ x ≤ chunkSizeMax, parseChunkHeader available = (none, x))) := by
  cases chunks with
  | nil =>
    have hnone := hpre.length_le
    simp only [wireOf_nil, List.length_nil] at hnone
    omega
  | cons chunk others =>
    refine ⟨chunk, others, rfl, ?_⟩
    rw [wireOf_cons] at hpre
    by_cases hcomplete : chunk.header.length ≤ available.length
    · obtain ⟨tail, htail⟩ := List.prefix_of_prefix_length_le (List.prefix_append _ _) hpre hcomplete
      rw [← htail] at hcomplete ⊢
      exact .inl ⟨hcomplete, chunk.isHeader.parse_complete tail⟩
    · have hcut := List.prefix_of_prefix_length_le hpre (List.prefix_append _ _) (by omega)
      exact .inr ⟨by omega, chunk.isHeader.parse_incomplete hcut (by omega) (by omega)⟩

/-- The loop ends with a complete header: it asks for more as long as the header is cut off, and for
no more than one byte behind the header and the requested bytes before it. -/
theorem readChunkHeader_spec {chunkHeaderLength : ℤ} {fuel : ℕ}
    (h : Underway r start head chunks unsent) (hhead : (head.length : ℤ) = remaining)
    (hsize : remaining < size) (hskip : skip = true → remaining = 0)
    (hmin : 5 ≤ chunkHeaderLength)
    (hlength : ∀ chunk ∈ chunks.head?, chunkHeaderLength ≤ chunk.header.length)
    (hmax : chunkHeaderLength ≤ 11)
    (henough : Reaches head chunks unsent size →
      ∀ chunk ∈ chunks.head?, chunk.header.length < chunkHeaderLength + 2 * fuel) :
    wp (readChunkHeader skip size remaining fuel start chunkHeaderLength)
      (fun found r' ↦ Refilled r r' ∧ Underway r' found.1 head chunks unsent ∧
        found.1 + remaining + found.2.1 ≤ r'.streamDataEnd ∧
        ∃ chunk others, chunks = chunk :: others ∧
          found.2.1 = chunk.header.length ∧ found.2.2 = chunk.data.length)
      (fun _ _ ↦ ¬ Reaches head chunks unsent size ∨ ¬ Fits skip size r) r := by
  induction fuel generalizing r start chunkHeaderLength with
  | zero =>
    refine .inl fun hreaches ↦ ?_
    obtain ⟨chunk, others, rfl⟩ := hreaches.exists_cons (by omega)
    have hhl : chunkHeaderLength ≤ chunk.header.length := hlength chunk (by simp)
    have hover := henough hreaches chunk (by simp)
    omega
  | succ fuel ih =>
    obtain ⟨raw, hholds, hraw⟩ := h
    have hlower := le_headerRequest hsize hskip hmax
    have hupper := @headerRequest_le_add size skip chunkHeaderLength
    have hroom : r.bufferEnd - r.bufferStart < headerRequest skip size chunkHeaderLength →
        ¬ Fits skip size r := fun hsmall hfits ↦
      absurd ((headerRequest_le hmax).trans hfits) (not_le.mpr hsmall)
    simp only [readChunkHeader, wp_bind, wp_get]
    refine wp_mono (getFromStream_spec hholds) ?_ ?_
    · rintro p r' ⟨hrefilled, hholds', hcount⟩
      have hheld := hholds'.length_eq
      have hbuffered : Holds r' (p + remaining) (raw.drop head.length) := by
        have hadvance := hholds'.advance head.length (by omega)
        rwa [hhead] at hadvance
      have htail := drop_sent hraw (by omega) le_rfl
      rw [List.drop_length, List.nil_append] at htail
      have hpre : slice r'.mem (p + remaining) r'.streamDataEnd <+: wireOf chunks :=
        hbuffered.slice_isPrefix.trans ⟨_, htail⟩
      set available := slice r'.mem (p + remaining) r'.streamDataEnd with havailable
      have hmore : chunkHeaderLength + 1 ≤ available.length := by
        rw [havailable, length_slice]
        omega
      obtain ⟨chunk, others, rfl, ⟨hcomplete, hparse⟩ | ⟨hcut, x, hx, hparse⟩⟩ :=
        parseChunkHeader_buffered hpre hmin hmore
      · rw [hparse]
        refine ⟨hrefilled, ⟨raw, hholds', hraw⟩, ?_, chunk, others, rfl, rfl, rfl⟩
        rw [havailable, length_slice] at hcomplete
        simp only
        have hpos := chunk.header_length_bounds
        omega
      · simp only [hparse, wp_ite, wp_throw]
        refine ⟨fun hbad ↦ absurd hbad (by omega), fun _ ↦ ?_⟩
        have hbounds := chunk.header_length_bounds
        refine wp_mono (ih ⟨raw, hholds', hraw⟩ (by omega) ?_ (by omega) ?_) ?_
          fun _ _ hfail ↦ hfail.imp_right fun hsmall hfits ↦ hsmall (hfits.mono le_rfl hrefilled)
        · intro chunk' hchunk'
          obtain rfl : chunk = chunk' := by simpa using hchunk'
          omega
        · intro hreaches chunk' hchunk'
          have hfuel := henough hreaches chunk' hchunk'
          push_cast at hfuel
          omega
        · rintro found r'' ⟨hrefilled', hfound⟩
          exact ⟨hrefilled.trans hrefilled', hfound⟩
    · rintro _ _ (hshort | hsmall)
      swap
      · exact .inr (hroom hsmall)
      left
      rw [Reaches.of_sent hraw, not_le]
      cases chunks with
      | nil =>
        have hall := congrArg List.length hraw
        simp only [wireOf_nil, List.append_nil, List.length_append] at hall
        rw [reach]
        omega
      | cons chunk others =>
        have hhl : chunkHeaderLength ≤ chunk.header.length := hlength chunk (by simp)
        rw [reach_cons (by omega)]
        have hle := @le_reach (head.length + chunk.data.length) others size
        omega

/-- A header is taken out of the data, whichever side of it is moved. -/
theorem unwrapHeader_spec {header tail : List UInt8} (h : Holds r start (head ++ (header ++ tail)))
    (hhead : (head.length : ℤ) = remaining) (hmin : 5 ≤ header.length)
    (hbuffered : start + remaining + header.length ≤ r.streamDataEnd) :
    wp (unwrapHeader start remaining header.length)
      (fun p r' ↦ Refilled r r' ∧ Holds r' p (head ++ tail)) (fun _ _ ↦ False) r := by
  obtain ⟨hstart, hstop, hend, hraw⟩ := h
  obtain ⟨headerStart, hheaderStart⟩ : ∃ p, p = start + remaining := ⟨_, rfl⟩
  obtain ⟨headerEnd, hheaderEnd⟩ : ∃ p, p = headerStart + header.length := ⟨_, rfl⟩
  have hheader : slice r.mem headerStart r.streamDataEnd =
      slice r.mem headerStart headerEnd ++ slice r.mem headerEnd r.streamDataEnd :=
    slice_append _ _ (by omega) (by omega)
  rw [slice_append _ headerStart (by omega) (by omega), hheader, List.append_assoc,
    List.append_assoc] at hraw
  obtain ⟨hfirst, hraw⟩ := List.append_inj hraw (by rw [length_slice]; omega)
  obtain ⟨-, hlast⟩ := List.append_inj hraw (by rw [length_slice]; omega)
  simp only [unwrapHeader, wp_bind, wp_get, wp_ite, wp_set, wp_pure, ← hheaderStart, ← hheaderEnd]
  refine ⟨fun hmuch ↦ ⟨fun hsome ↦ ⟨fun hword ↦ ?_, fun hblock ↦ ?_⟩, fun hnone ↦ ?_⟩, fun hfew ↦ ?_⟩
  · -- one word move brings at least the `remaining` bytes right before the header
    have hgone : 8 - head.length ≤ 8 := Nat.sub_le _ _
    have hmove := slice_move_last r.mem (headerEnd - 8) (headerStart - 8) hgone
    have htarget : headerEnd - 8 + ((8 - head.length : ℕ) : ℤ) = start + header.length := by omega
    have hsource : headerStart - 8 + ((8 - head.length : ℕ) : ℤ) = start := by omega
    rw [htarget, hsource, Nat.cast_ofNat, sub_add_cancel, sub_add_cancel, hfirst] at hmove
    refine ⟨⟨_, _, _, _, rfl⟩, by simp only; omega, by simp only; omega, hend, ?_⟩
    rw [slice_append _ headerEnd (by omega) (by simp only; omega), hmove,
      slice_move_after (by push_cast; omega), List.append_assoc, hlast]
  · have hmove := slice_move r.mem (headerEnd - remaining) start remaining.toNat
    have htarget : headerEnd - remaining = start + header.length := by omega
    have hcount : (remaining.toNat : ℤ) = remaining := by omega
    rw [hcount, sub_add_cancel, ← hheaderStart, hfirst] at hmove
    refine ⟨⟨_, _, _, _, rfl⟩, by simp only; omega, by simp only; omega, hend, ?_⟩
    rw [← htarget, slice_append _ headerEnd (by omega) (by simp only; omega), hmove,
      slice_move_after (by omega), List.append_assoc, hlast]
  · have hnil : head = [] := List.length_eq_zero_iff.mp (by omega)
    have hsame : start + header.length = headerEnd := by omega
    refine ⟨⟨_, _, _, _, rfl⟩, by omega, by omega, hend, ?_⟩
    rw [hsame, hlast, hnil, List.nil_append]
  · -- all that is buffered after the header fits into one word
    have hkeep : (r.streamDataEnd - headerEnd).toNat ≤ 8 := by omega
    have hmove := slice_move_sub r.mem headerStart headerEnd hkeep
    have htarget : headerStart + ((r.streamDataEnd - headerEnd).toNat : ℤ) =
        r.streamDataEnd - header.length := by omega
    have hsource : headerEnd + ((r.streamDataEnd - headerEnd).toNat : ℤ) = r.streamDataEnd := by omega
    rw [htarget, hsource] at hmove
    refine ⟨⟨_, _, _, _, rfl⟩, hstart, by simp only; omega, by simp only; omega, ?_⟩
    rw [slice_append _ headerStart (by omega) (by simp only; omega), hmove,
      slice_move_before le_rfl, hfirst, List.append_assoc, hlast]

/-! ## Chunks -/

/-- The state of the outer loop before another chunk is needed: `rest` is the payload at `start`. -/
structure Crossing (r : DataReader) (start remaining : ℤ) (raw rest : List UInt8) : Prop where
  holds : Holds r start raw
  inChunk : InChunk remaining raw rest

/-- A skip leaves the chunk behind, a get keeps its bytes. -/
theorem leaveChunk_spec (h : Underway r start head chunks unsent) (hhead : (head.length : ℤ) = remaining)
    (hsize : remaining < size) (hbuffer : r.bufferStart < r.bufferEnd) :
    wp (leaveChunk skip start size remaining)
      (fun found r' ↦ Refilled r r' ∧ ∃ gone ≤ head.length, (skip = false → gone = 0) ∧
        found.2.1 = size - gone ∧ found.2.2 = (head.drop gone).length ∧ found.2.2 < found.2.1 ∧
        (skip = true → found.2.2 = 0) ∧ Underway r' found.1 (head.drop gone) chunks unsent)
      (fun _ _ ↦ ¬ Reaches head chunks unsent size) r := by
  cases skip with
  | false =>
    simp only [leaveChunk, Bool.false_eq_true, if_false, wp_pure]
    exact ⟨Refilled.refl r, 0, Nat.zero_le _, fun _ ↦ rfl, by simp, by simp [hhead], hsize, by simp,
      by simpa using h⟩
  | true =>
    obtain ⟨raw, hholds, hraw⟩ := h
    simp only [leaveChunk, if_true, wp_bind, wp_get, wp_pure]
    refine wp_mono (skipStream_spec hholds (by omega) hbuffer) ?_ ?_
    · rintro _ r' ⟨hrefilled, hholds', hsent⟩
      have hcast : remaining.toNat = head.length := by omega
      rw [hcast] at hholds'
      refine ⟨hrefilled, head.length, le_rfl, by simp, by omega, by simp, by omega, fun _ ↦ trivial, ?_⟩
      exact ⟨_, hholds', drop_sent hraw (by omega) le_rfl⟩
    · intro _ _ hshort
      have hle := @le_reach head.length chunks size
      rw [Reaches.of_sent hraw]
      omega

/-- One chunk is entered: the same payload, with less data before it. -/
theorem enterChunk_spec (h : Underway r start head chunks unsent) (hhead : (head.length : ℤ) = remaining)
    (hsize : remaining < size) (hbuffer : r.bufferStart < r.bufferEnd) :
    wp (enterChunk skip start size remaining)
      (fun found r' ↦ Refilled r r' ∧ ∃ head' chunks', ∃ gone : ℕ, (skip = false → gone = 0) ∧
        found.2.1 = size - gone ∧ 0 < found.2.1 ∧ (head'.length : ℤ) = found.2.2 ∧
        (head' ++ wireOf chunks').length < (head ++ wireOf chunks).length ∧
        Underway r' found.1 head' chunks' unsent ∧ Continues head chunks size gone head' chunks')
      (fun _ _ ↦ ¬ Reaches head chunks unsent size ∨ ¬ Fits skip size r) r := by
  simp only [enterChunk, wp_bind, wp_get]
  refine wp_mono (leaveChunk_spec h hhead hsize hbuffer) ?_ (fun _ _ ↦ .inl)
  rintro ⟨p, left, remaining'⟩ r₁ ⟨hrefilled, gone, hgone, hget, hleft, hremaining, hlt, hzero, hunderway⟩
  simp only at hleft hremaining hlt hzero hunderway
  have hleave := @continues_drop head chunks size gone hgone
  obtain ⟨head₁, hhead₁⟩ : ∃ head₁, head₁ = head.drop gone := ⟨_, rfl⟩
  have hless : head₁.length ≤ head.length := by
    rw [hhead₁, List.length_drop]
    omega
  rw [← hhead₁] at hremaining hunderway hleave
  have hheader : ∀ chunk ∈ chunks.head?, 5 ≤ chunk.header.length ∧ chunk.header.length ≤ 11 :=
    fun chunk _ ↦ chunk.header_length_bounds
  have hunread : (unread r₁ p : ℤ) + unsent.length = (head₁ ++ wireOf chunks).length := by
    have hlength := hunderway.length_eq
    have hle := hunderway.le_streamDataEnd
    unfold unread
    omega
  have hback : ¬ Reaches head₁ chunks unsent left → ¬ Reaches head chunks unsent size := by
    rw [hleft]
    exact fun hshort hreaches ↦ hshort ((hleave.reaches_iff unsent size le_rfl).mpr hreaches)
  dsimp only
  refine wp_mono (readChunkHeader_spec hunderway hremaining.symm hlt hzero le_rfl
    (fun chunk hchunk ↦ by have := hheader chunk hchunk; unfold chunkHeaderSizeMin; omega)
    (by decide) ?_) ?_ ?_
  · intro hreaches chunk hchunk
    obtain ⟨others, rfl⟩ := List.head?_eq_some_iff.mp hchunk
    have hle := @le_reach (head₁.length + chunk.data.length) others left
    rw [Reaches, reach_cons (by omega)] at hreaches
    unfold chunkHeaderSizeMin
    push_cast
    omega
  · rintro ⟨p', length, nextSize⟩ r₂ ⟨hrefilled', ⟨raw, hholds, hraw⟩, hbuffered, chunk, others, rfl, hlen, hnext⟩
    simp only at hholds hbuffered hlen hnext
    subst hlen hnext
    dsimp only
    have hpos := chunk.header_length_bounds
    have henter := hleave.trans (@continues_cons head₁ others (size - gone) chunk (by omega))
    rw [add_zero] at henter
    -- the header is buffered, so it was sent
    have hheld := hholds.length_eq
    obtain ⟨tail, htail, hrest⟩ : ∃ tail, raw = head₁ ++ (chunk.header ++ tail) ∧
        tail ++ unsent = chunk.data ++ wireOf others := by
      rw [wireOf_cons, ← List.append_assoc] at hraw
      obtain ⟨tail, rfl⟩ := List.prefix_of_prefix_length_le (List.prefix_append _ _)
        (Exists.intro unsent hraw : raw <+: _) (by simp only [List.length_append]; omega)
      refine ⟨tail, List.append_assoc _ _ _, ?_⟩
      rw [List.append_assoc] at hraw
      exact List.append_cancel_left hraw
    have hcut : (head₁ ++ chunk.data ++ wireOf others).length < (head ++ wireOf (chunk :: others)).length := by
      rw [wireOf_cons]
      simp only [List.length_append]
      omega
    rw [htail] at hholds
    cases skip with
    | false =>
      simp only [Bool.false_eq_true, if_false, wp_bind, wp_pure]
      have hlength : (head₁.length : ℤ) = remaining' := by omega
      refine wp_mono (unwrapHeader_spec hholds hlength hpos.1 hbuffered) ?_ (fun _ _ ↦ False.elim)
      rintro p'' r₃ ⟨hrefilled'', hholds'⟩
      refine ⟨(hrefilled.trans hrefilled').trans hrefilled'', head₁ ++ chunk.data, others, gone,
        fun _ ↦ hget rfl, hleft, by omega, ?_, hcut, ⟨_, hholds', ?_⟩, henter⟩
      · rw [List.length_append]
        push_cast
        omega
      · rw [List.append_assoc, hrest, List.append_assoc]
    | true =>
      simp only [if_true]
      have hempty := hzero rfl
      obtain rfl : head₁ = [] := List.length_eq_zero_iff.mp (by omega)
      rw [List.nil_append] at hholds
      have hadvance := hholds.advance chunk.header.length (by omega)
      rw [List.drop_left] at hadvance
      refine ⟨hrefilled.trans hrefilled', chunk.data, others, gone, hget, hleft, by simp only; omega, by simp only; omega, hcut,
        ⟨_, hadvance, hrest⟩, henter⟩
  · rintro _ _ (hshort | hsmall)
    · exact .inl (hback hshort)
    · exact .inr fun hfits ↦ hsmall (hfits.mono (by omega) hrefilled)

/-- The outer loop ends in a chunk that has all that is still asked for. -/
theorem enterChunks_spec {fuel : ℕ} (h : Underway r start head chunks unsent)
    (hhead : (head.length : ℤ) = remaining) (hsize : remaining < size) (hbuffer : r.bufferStart < r.bufferEnd)
    (hfuel : (head ++ wireOf chunks).length < fuel + unsent.length) :
    wp (enterChunks skip fuel start size remaining)
      (fun found r' ↦ Refilled r r' ∧ ∃ head' chunks', ∃ gone : ℕ, (skip = false → gone = 0) ∧
        found.2.1 = size - gone ∧ 0 < found.2.1 ∧ (head'.length : ℤ) = found.2.2 ∧ found.2.1 ≤ found.2.2 ∧
        Underway r' found.1 head' chunks' unsent ∧ Continues head chunks size gone head' chunks')
      (fun _ _ ↦ ¬ Reaches head chunks unsent size ∨ ¬ Fits skip size r) r := by
  induction fuel generalizing r start size remaining head chunks with
  | zero =>
    have hlength := h.length_eq
    have hle := h.le_streamDataEnd
    omega
  | succ fuel ih =>
    simp only [enterChunks, wp_bind]
    refine wp_mono (enterChunk_spec h hhead hsize hbuffer) ?_ (fun _ _ ↦ id)
    rintro ⟨p, left, remaining'⟩ r₁ ⟨hrefilled, head₁, chunks₁, gone, hget, hleft, hpos, hhead₁, hless,
      hunderway, hgoes⟩
    simp only at hleft hpos hhead₁ hunderway ⊢
    simp only [wp_ite, wp_pure, not_lt]
    refine ⟨fun hmore ↦ ?_, fun hdone ↦
      ⟨hrefilled, head₁, chunks₁, gone, hget, hleft, hpos, hhead₁, hdone, hunderway, hgoes⟩⟩
    refine wp_mono (ih hunderway hhead₁ hmore (hrefilled.buffer_pos hbuffer) (by omega)) ?_ ?_
    · rintro ⟨p', left', remaining''⟩ r₂ ⟨hrefilled', head₂, chunks₂, gone', hget', hleft', hpos', hhead₂,
        hdone, hunderway', hgoes'⟩
      rw [hleft] at hgoes'
      simp only at hleft' hpos' hhead₂ hdone hunderway' ⊢
      refine ⟨hrefilled.trans hrefilled', head₂, chunks₂, gone + gone', fun hskip ↦ ?_, ?_, hpos', hhead₂,
        hdone, hunderway', hgoes.trans hgoes'⟩
      · rw [hget hskip, hget' hskip]
      · push_cast
        omega
    · rintro _ _ (hshort | hsmall)
      · rw [hleft, hgoes.reaches_iff unsent size le_rfl] at hshort
        exact .inl hshort
      · exact .inr fun hfits ↦ hsmall (hfits.mono (by omega) hrefilled)

theorem getOrSkipInChunk_spec (h : Underway r start head chunks unsent)
    (hhead : (head.length : ℤ) = remaining) (hsize : 0 < size) (hle : size ≤ remaining)
    (hbuffer : r.bufferStart < r.bufferEnd) :
    wp (getOrSkipInChunk skip start size remaining)
      (fun p r' ↦ Relocated r r' ∧ r'.dataEnd = min r'.streamDataEnd r'.chunkEnd ∧
        (skip = true → p = r'.dataPtr) ∧ (skip = false → p + size ≤ r'.dataEnd) ∧
        ∃ head', r'.chunkEnd = p + head'.length ∧ Underway r' p head' chunks unsent ∧
          Continues head chunks size (if skip then size.toNat else 0) head' chunks)
      (fun _ _ ↦ ¬ Reaches head chunks unsent size ∨ ¬ Fits skip size r) r := by
  obtain ⟨raw, hholds, hraw⟩ := h
  have hreach : raw.length < size → ¬ Reaches head chunks unsent size := by
    rw [Reaches.of_sent hraw, reach_of_le (by omega), not_le]
    exact id
  cases skip with
  | false =>
    have hroom : r.bufferEnd - r.bufferStart < size → ¬ Fits false size r := by
      simp only [Fits, headerRequest, chunkHeaderSizeMax, Bool.false_eq_true, if_false]
      omega
    simp only [getOrSkipInChunk, Bool.false_eq_true, if_false, wp_bind, wp_pure, setChunkEnd, wp_modify]
    refine wp_mono (getFromStream_spec hholds) ?_ (fun _ _ ↦ Or.imp hreach hroom)
    rintro p r' ⟨⟨mem, dataPtr, streamDataEnd, s, rfl⟩, ⟨hstart, hstop, hend, hslice⟩, hcount⟩
    refine ⟨⟨_, _, _, _, _, _, rfl⟩, trivial, by simp, fun _ ↦ ?_, head, by omega,
      ⟨raw, ⟨hstart, hstop, hend, hslice⟩, hraw⟩, Continues.refl head chunks size⟩
    simp only at hcount ⊢
    omega
  | true =>
    simp only [getOrSkipInChunk, if_true, wp_bind, wp_get, wp_pure, setChunkEnd, wp_modify]
    refine wp_mono (skipStream_spec hholds hsize.le hbuffer) ?_ (fun _ _ hshort ↦ .inl (hreach hshort))
    rintro _ r' ⟨⟨mem, dataPtr, streamDataEnd, s, rfl⟩, ⟨hstart, hstop, hend, hslice⟩, hsent⟩
    refine ⟨⟨_, _, _, _, _, _, rfl⟩, trivial, fun _ ↦ trivial, by simp, head.drop size.toNat, ?_,
      ⟨_, ⟨hstart, hstop, hend, hslice⟩, drop_sent hraw (by omega) (by omega)⟩, continues_drop (by omega)⟩
    rw [List.length_drop]
    simp only
    omega

/-- A get or a skip succeeds as soon as the bytes it asks for have been sent, whatever the cutting into
chunks. -/
theorem getOrSkipChunked_underway (h : Underway r start head chunks unsent)
    (hend : r.chunkEnd = start + head.length) (hsize : 0 < size) (hbuffer : r.bufferStart < r.bufferEnd) :
    wp (getOrSkipChunked skip start size)
      (fun p r' ↦ Relocated r r' ∧ r'.dataEnd = min r'.streamDataEnd r'.chunkEnd ∧
        (skip = true → p = r'.dataPtr) ∧ (skip = false → p + size ≤ r'.dataEnd) ∧
        ∃ head' chunks', r'.chunkEnd = p + head'.length ∧ Underway r' p head' chunks' unsent ∧
          size ≤ (head ++ payloadOf chunks).length ∧
          Continues head chunks size (if skip then size.toNat else 0) head' chunks')
      (fun _ _ ↦ ¬ Reaches head chunks unsent size ∨ ¬ Fits skip size r) r := by
  have hhead : (head.length : ℤ) = r.chunkEnd - start := by omega
  simp only [getOrSkipChunked, wp_bind, wp_get, wp_ite]
  constructor
  · intro hinside
    refine wp_mono (getOrSkipInChunk_spec h hhead hsize hinside hbuffer) ?_ (fun _ _ ↦ id)
    rintro p r' ⟨hrelocated, hdataEnd, hskip, hget, head', hend', hunderway, hgoes⟩
    refine ⟨hrelocated, hdataEnd, hskip, hget, head', chunks, hend', hunderway, ?_, hgoes⟩
    rw [List.length_append]
    push_cast
    omega
  · intro hcross
    have hlength := h.length_eq
    have hle := h.le_streamDataEnd
    refine wp_mono (enterChunks_spec h hhead (not_le.mp hcross) hbuffer (by unfold unread; omega)) ?_
      (fun _ _ ↦ id)
    rintro ⟨p, left, remaining'⟩ r₁ ⟨hrefilled, head₁, chunks₁, gone, hgone, hleft, hpos, hhead₁, hfits,
      hunderway, hgoes⟩
    dsimp only at hleft hpos hhead₁ hfits hunderway ⊢
    refine wp_mono (getOrSkipInChunk_spec hunderway hhead₁ hpos hfits (hrefilled.buffer_pos hbuffer)) ?_ ?_
    · rintro p' r' ⟨hrelocated, hdataEnd, hskip, hget, head', hend', hunderway', hgoes'⟩
      rw [hleft] at hgoes'
      have hlength' := congrArg List.length hgoes.payload_eq
      rw [List.length_append, List.length_drop] at hlength'
      refine ⟨hrefilled.relocated hrelocated, hdataEnd, hskip, fun hskip ↦ ?_, head', chunks₁, hend',
        hunderway', by omega, ?_⟩
      · have hnone := hgone hskip
        have hend := hget hskip
        omega
      · have htrans := hgoes.trans hgoes'
        cases skip with
        | false =>
          have hnone := hgone rfl
          simpa [hnone] using htrans
        | true =>
          have htotal : gone + (size - gone).toNat = size.toNat := by omega
          simpa only [if_true, htotal] using htrans
    · rintro _ _ (hshort | hsmall)
      · rw [hleft, hgoes.reaches_iff unsent size le_rfl] at hshort
        exact .inl hshort
      · exact .inr fun hfits ↦ hsmall (hfits.mono (by omega) hrefilled)

/-- Whatever the cutting into chunks, a get finds the payload and a skip passes over it. -/
theorem getOrSkipChunked_spec (h : Crossing r start (r.chunkEnd - start) raw rest) (hsize : 0 < size)
    (hbuffer : r.bufferStart < r.bufferEnd) :
    wp (getOrSkipChunked skip start size)
      (fun p r' ↦ Relocated r r' ∧ r'.dataEnd = min r'.streamDataEnd r'.chunkEnd ∧
        (skip = true → p = r'.dataPtr) ∧ (skip = false → p + size ≤ r'.dataEnd) ∧ size ≤ rest.length ∧
        ∃ raw', Crossing r' p (r'.chunkEnd - p) raw' (if skip then rest.drop size.toNat else rest))
      (fun _ _ ↦ rest.length < size ∨ ¬ Fits skip size r) r := by
  obtain ⟨hholds, head, chunks, hhead, rfl, rfl⟩ := h
  have hunderway : Underway r start head chunks [] := ⟨_, hholds, List.append_nil _⟩
  refine wp_mono (getOrSkipChunked_underway hunderway (by omega) hsize hbuffer) ?_ ?_
  · rintro p r' ⟨hrelocated, hdataEnd, hskip, hget, head', chunks', hend', ⟨raw', hholds', hraw'⟩, hlength,
      hgoes⟩
    refine ⟨hrelocated, hdataEnd, hskip, hget, hlength, raw', hholds', head', chunks', by omega,
      by simpa using hraw', ?_⟩
    rw [hgoes.payload_eq]
    split <;> rfl
  · intro _ _ hfail
    exact hfail.imp_left fun hshort ↦ not_le.mp fun hle ↦ hshort (reaches_nil hle)

end DxApi.Reader
