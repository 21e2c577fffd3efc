import DxApi.Reader.Checked

/-!
# Entering a chunk with assertions on

Every assertion of `getFromStream` and `skipStream` holds, and so do those of the loop of
`getOrSkipChunked`, except for the two that look at the room for a chunk header where a request leaves a
chunk: there a get must fit into the buffer with a byte to spare, and a skip must not find the chunk's end
in the last bytes of the buffer. `Fetched` and `Proceeds` say what the functions leave; they follow the
position too, which another assertion compares with the end of the chunk.
-/

namespace DxApi.Reader.Checked

open Exec ByteMemory

/-! ## Leaving a chunk -/

/-- Where a skip of `size` bytes ends: what is not buffered is read over and over to the buffer's start. -/
def skipTarget (r : DataReader) (start size : ℤ) : ℤ :=
  if start + size ≤ r.streamDataEnd then start + size
  else r.bufferStart + ((start + size - r.streamDataEnd - 1) % (r.bufferEnd - r.bufferStart) + 1)

/-- The room that a look for a header from `start` must have. -/
def HeaderFits (skip : Bool) (start size : ℤ) (r : DataReader) : Prop :=
  if skip then start < r.bufferEnd - chunkHeaderSizeMax - 1
  else size + chunkHeaderSizeMax < r.bufferEnd - r.bufferStart

/-- The assertions that there is room for a header. -/
def AboutRoom (place : Assertion) : Prop :=
  place = .fromBeforeBufferEnd ∨ place = .requestWithHeaderWithinBuffer

/-- A request that has `remainingSize` bytes left of its chunk and needs more. -/
structure ChunkExit where
  skip : Bool
  start : ℤ
  size : ℤ
  remainingSize : ℤ
  r : DataReader

/-- There is room for the header where the chunk ends. -/
def ChunkExit.HasRoom (exit : ChunkExit) : Prop :=
  HeaderFits exit.skip (skipTarget exit.r exit.start exit.remainingSize) exit.size exit.r

instance : (exit : ChunkExit) → Decidable exit.HasRoom
  | ⟨true, _, _, _, _⟩ => inferInstanceAs (Decidable (_ < _))
  | ⟨false, _, _, _, _⟩ => inferInstanceAs (Decidable (_ < _))

/-- The chunks that the outer loop of `getOrSkipChunked` leaves. -/
def loopExits (debug skip : Bool) : ℕ → ℤ → ℤ → ℤ → DataReader → List ChunkExit
  | 0, _, _, _, _ => []
  | fuel + 1, start, size, remainingSize, r =>
    ⟨skip, start, size, remainingSize, r⟩ ::
      collect (enterChunk debug skip start size remainingSize) (fun (start, size, remainingSize) r ↦
        if remainingSize < size then loopExits debug skip fuel start size remainingSize r else []) r

/-- The chunks that a call of `getOrSkipChunked` leaves. -/
def requestExits (debug skip : Bool) (start size : ℤ) (r : DataReader) : List ChunkExit :=
  let remainingSize := r.chunkEnd - start
  if size ≤ remainingSize then []
  else loopExits debug skip (unread r start + 1) start size remainingSize r

variable {debug skip : Bool} {r : DataReader} {start size remaining : ℤ} {raw head : List UInt8}
  {chunks : List Chunk}

/-- A call ended because the connection did. -/
def Disconnected (failure : Failure Assertion ReadError) (_ : DataReader) : Prop :=
  failure = .thrown .disconnected

/-! ## The input stream -/

theorem makeRoom_spec (h : Holds r start raw)
    (hfits : r.streamDataEnd - start + size ≤ r.bufferEnd - r.bufferStart) :
    wp (makeRoom debug start size)
      (fun place r' ↦ ∃ mem dataPtr, r' = { r with mem, dataPtr } ∧
        (place.1 = start ∧ dataPtr = r.dataPtr ∨ place.1 = r.bufferStart ∧ dataPtr = r.bufferStart) ∧
        place.2 - place.1 = r.streamDataEnd - start ∧ place.2 + size ≤ r.bufferEnd ∧
        slice mem place.1 place.2 = slice r.mem start r.streamDataEnd)
      (fun _ _ ↦ False) r := by
  have hslice := h.slice_compact
  obtain ⟨hstart, hstop, hend, -⟩ := h
  simp only [makeRoom, wp_bind, wp_get, wp_ite, wp_set, wp_pure]
  refine ⟨fun hnone ↦ ?_, fun _ ↦ ⟨fun hfull ↦ ?_, fun hroom ↦ ?_⟩⟩
  · obtain ⟨hnone, -⟩ := hnone
    refine ⟨r.mem, r.bufferStart, rfl, .inr ⟨trivial, rfl⟩, by omega, by omega, ?_⟩
    rw [slice_self, slice_of_le _ (by omega)]
  · have hafter : r.bufferStart + size ≤ r.bufferEnd := by omega
    rw [wp_check_of hafter]
    exact ⟨_, _, rfl, .inr ⟨trivial, rfl⟩, by omega, by omega, hslice⟩
  · exact ⟨r.mem, r.dataPtr, rfl, .inl ⟨trivial, rfl⟩, trivial, by omega, rfl⟩

/-- `r'` has the data of `r` at `start` at `p`, no further up in the buffer, and `size` bytes of it
buffered; the position has not come to stand further behind it. -/
structure Fetched (r : DataReader) (start size : ℤ) (raw : List UInt8) (p : ℤ) (r' : DataReader) : Prop where
  refilled : Refilled r r'
  holds : Holds r' p raw
  le_start : p ≤ start
  buffered : p + size ≤ r'.streamDataEnd
  dataPtr_le : ∀ count, 0 ≤ count → r.dataPtr ≤ start + count → r'.dataPtr ≤ p + count

theorem getFromStream_spec (h : Holds r start raw) (hpos : 0 < size)
    (hfits : size ≤ r.bufferEnd - r.bufferStart) :
    wp (getFromStream debug start size) (Fetched r start size raw) Disconnected r := by
  have hstart := h.bufferStart_le
  have hle := h.le_streamDataEnd
  have hend := h.streamDataEnd_le
  have hremaining : r.streamDataEnd - start ≤ r.bufferEnd - r.bufferStart := by omega
  simp only [getFromStream, wp_bind, wp_get, wp_check_of hpos, wp_check_of hle, wp_check_of hend,
    wp_check_of hremaining, wp_check_of hfits, wp_ite, wp_pure]
  refine ⟨fun hbuffered ↦ ⟨Refilled.refl r, h, le_rfl, by omega, fun _ _ ↦ id⟩, fun hshort ↦ ?_⟩
  refine wp_mono (makeRoom_spec h (by omega)) ?_ (fun _ _ ↦ False.elim)
  rintro ⟨p, dataEnd⟩ _ ⟨mem, dataPtr, rfl, hplace, hcount, hroom, hslice⟩
  simp only at hplace hcount hroom hslice
  rw [wp_unchecked]
  refine wp_mono (read_spec (by omega)) ?_ ?_
  · rintro _ _ ⟨n, rfl, hmin, hmax, hwire, schedule, rfl⟩
    simp only [wp_check_of hmin, wp_modify]
    refine ⟨⟨_, _, _, _, rfl⟩, h.refill (by omega) hcount hslice (by omega) hwire, by omega, ?_, ?_⟩
    · simp only
      omega
    · intro count hnonneg hposition
      simp only
      omega
  · rintro _ _ (⟨-, rfl⟩ | hsmall)
    · rfl
    · simp only at hsmall
      omega

theorem skipBuffers_spec {bufferStart bufferSize : ℤ} (hbuffer : 0 < bufferSize) {fuel : ℕ}
    (hfuel : r.s.wire.length < fuel) (hpos : 0 < size) :
    wp (skipBuffers bufferStart bufferSize fuel size)
      (fun left r' ↦ 0 < left ∧ left ≤ bufferSize ∧ left = (size - 1) % bufferSize + 1 ∧
        ∃ mem s, r' = { r with mem, s }) Disconnected r := by
  induction fuel generalizing r size with
  | zero => omega
  | succ fuel ih =>
    simp only [skipBuffers, wp_ite, wp_bind, wp_unchecked, wp_pure, not_lt]
    refine ⟨fun hmore ↦ ?_, fun hlast ↦ ⟨hpos, hlast, ?_, r.mem, r.s, rfl⟩⟩
    · refine wp_mono (read_spec hbuffer.le) ?_ ?_
      · rintro _ _ ⟨n, rfl, hmin, hmax, hwire, schedule, rfl⟩
        have hwhole : bufferSize = (n : ℤ) := le_antisymm hmin hmax
        rw [wp_check_of hwhole]
        refine wp_mono (ih ?_ (by omega)) ?_ (fun _ _ ↦ id)
        · simp only [List.length_drop]
          omega
        · rintro left _ ⟨hleft, hle, hmod, mem, s, rfl⟩
          refine ⟨hleft, hle, ?_, mem, s, rfl⟩
          rw [hmod, sub_right_comm, Int.sub_emod_right]
      · rintro _ _ (⟨-, rfl⟩ | hsmall)
        · rfl
        · omega
    · rw [Int.emod_eq_of_lt (by omega) (by omega), sub_add_cancel]

/-- `skipStream` passes over the data and ends where `skipTarget` says. -/
theorem skipStream_spec (h : Holds r start raw) (hsize : 0 ≤ size) (hbuffer : HasBuffer r) :
    wp (skipStream start size)
      (fun _ r' ↦ (Refilled r r' ∧ Holds r' r'.dataPtr (raw.drop size.toNat) ∧ size ≤ raw.length) ∧
        r'.dataPtr = skipTarget r start size)
      (fun failure r' ↦ (∃ error, failure = .thrown error ∧ raw.length < size) ∧ Disconnected failure r') r := by
  refine (skipStream_erases start size).wp_and (Reader.skipStream_spec h hsize hbuffer) ?_ ?_
  · have hle := h.le_streamDataEnd
    have hremaining : r.streamDataEnd - start ≤ r.bufferEnd - r.bufferStart := by
      have hstart := h.bufferStart_le
      have hend := h.streamDataEnd_le
      omega
    have hsome : 0 < r.bufferEnd - r.bufferStart := sub_pos.mpr hbuffer
    simp only [skipStream, wp_bind, wp_get, wp_check_of hsize, wp_check_of hle, wp_check_of hremaining,
      wp_ite, wp_set]
    refine ⟨fun hbuffered ↦ ?_, fun hbeyond ↦ ?_⟩
    · rw [skipTarget, if_pos (by omega)]
    refine wp_mono (skipBuffers_spec hsome (Nat.lt_succ_self _) (by omega)) ?_ (fun _ _ ↦ id)
    rintro left _ ⟨hpos, hlast, hmod, mem, s, rfl⟩
    rw [wp_check_of hpos, wp_unchecked]
    refine wp_mono (read_spec hpos.le) ?_ ?_
    · rintro _ _ ⟨n, rfl, hmin, hmax, hwire, schedule, rfl⟩
      simp only [wp_check_of hmin, wp_modify]
      have htarget : size - (r.streamDataEnd - start) - 1 = start + size - r.streamDataEnd - 1 := by omega
      rw [skipTarget, if_neg (by omega), hmod, htarget]
    · rintro _ _ (⟨-, rfl⟩ | hsmall)
      · rfl
      · omega
  · intro place r' habs
    cases habs

/-! ## Chunks -/

theorem HeaderFits.mono {p : ℤ} {r' : DataReader} (h : HeaderFits skip start size r) (hle : p ≤ start)
    (hrefilled : Refilled r r') : HeaderFits skip p size r' := by
  obtain ⟨_, _, _, _, rfl⟩ := hrefilled
  unfold HeaderFits at *
  cases skip with
  | true => exact hle.trans_lt h
  | false => exact h

/-- One look for a header brings what it asks for. -/
theorem requestHeader_spec {length : ℤ} (h : Holds r start raw) (hsize : 0 < size) (hmin : 5 ≤ length)
    (hmax : length ≤ 11) (hroom : HeaderFits skip start size r) (hfits : Fits skip size r) :
    wp (requestHeader debug skip start size length)
      (Fetched r start (headerRequest skip size length) raw) Disconnected r := by
  have hrequest : headerRequest skip size length ≤ r.bufferEnd - r.bufferStart :=
    (headerRequest_le hmax).trans hfits
  have hnonneg : 0 < headerRequest skip size length := by
    unfold headerRequest
    split <;> omega
  have hfetch : wp (getFromStream debug start (headerRequest skip size length)) _ Disconnected r :=
    getFromStream_spec h hnonneg hrequest
  cases skip with
  | true =>
    have hstart : start < r.bufferEnd - chunkHeaderSizeMax - 1 := hroom
    simp only [requestHeader, if_true, wp_bind, wp_get, wp_check_of hstart]
    exact hfetch
  | false =>
    have hwhole : size + chunkHeaderSizeMax < r.bufferEnd - r.bufferStart := hroom
    simp only [requestHeader, Bool.false_eq_true, if_false, wp_bind, wp_get, wp_check_of hwhole, wp_pure]
    refine wp_mono hfetch ?_ (fun _ _ ↦ id)
    intro p r' hfetched
    have hread : p + size + length ≤ r'.streamDataEnd := by
      have hbuffered := hfetched.buffered
      simp only [headerRequest, Bool.false_eq_true, if_false] at hbuffered
      omega
    rw [wp_check_of hread]
    exact hfetched

/-- What the loop that looks for a header has found when it ends: the header of the next chunk. -/
structure HeaderFound (skip : Bool) (r : DataReader) (start size : ℤ) (head : List UInt8) (chunk : Chunk)
    (others : List Chunk) (found : ℤ × ℕ × ℕ) (r' : DataReader) : Prop where
  fetched : Fetched r start (head.length + chunk.header.length) (head ++ wireOf (chunk :: others)) found.1 r'
  length_eq : found.2.1 = chunk.header.length
  size_eq : found.2.2 = chunk.data.length
  request_read : skip = false → found.1 + size + 5 ≤ r'.streamDataEnd

theorem readChunkHeader_spec {length : ℤ} {fuel : ℕ} (h : Holds r start (head ++ wireOf chunks))
    (hhead : (head.length : ℤ) = remaining) (hsize : remaining < size) (hskip : skip = true → remaining = 0)
    (hmin : 5 ≤ length) (hmax : length ≤ 11) (hroom : HeaderFits skip start size r) (hfits : Fits skip size r)
    (hfuel : 0 < fuel) (henough : ∀ chunk ∈ chunks.head?, chunk.header.length < length + 2 * fuel) :
    wp (readChunkHeader debug skip size remaining fuel start length)
      (fun found r' ↦ ∃ chunk others, chunks = chunk :: others ∧
        HeaderFound skip r start size head chunk others found r')
      Disconnected r := by
  induction fuel generalizing r start length with
  | zero => omega
  | succ fuel ih =>
    have hlower := le_headerRequest hsize hskip hmax
    simp only [readChunkHeader, wp_bind, wp_get]
    refine wp_mono (requestHeader_spec h (by omega) hmin hmax hroom hfits) ?_ (fun _ _ ↦ id)
    intro p r' hfetched
    have hbuffered := hfetched.buffered
    have hafter : Holds r' (p + remaining) (wireOf chunks) := by
      have hadvance := hfetched.holds.advance head.length (by omega)
      rwa [hhead, List.drop_left] at hadvance
    have hmore : length + 1 ≤ (slice r'.mem (p + remaining) r'.streamDataEnd).length := by
      rw [length_slice]
      omega
    obtain ⟨chunk, others, rfl, ⟨hcomplete, hparse⟩ | ⟨hcut, x, hx, hparse⟩⟩ :=
      parseChunkHeader_buffered hafter.slice_isPrefix hmin hmore
    · rw [length_slice] at hcomplete
      simp only [hparse, wp_pure]
      refine ⟨chunk, others, rfl, ⟨hfetched.refilled, hfetched.holds, hfetched.le_start, ?_,
        hfetched.dataPtr_le⟩, rfl, rfl, fun hget ↦ ?_⟩
      · simp only
        omega
      · simp only [headerRequest, hget, Bool.false_eq_true, if_false] at hbuffered
        simp only
        omega
    · have hbounds := chunk.header_length_bounds
      have hlonger := henough chunk (by simp)
      push_cast at hlonger
      simp only [hparse, wp_ite, wp_throw]
      refine ⟨fun hbad ↦ absurd hbad (by omega), fun _ ↦ ?_⟩
      refine wp_mono (ih hfetched.holds (by omega) (by omega)
        (hroom.mono hfetched.le_start hfetched.refilled) (hfits.mono le_rfl hfetched.refilled) (by omega) ?_)
        ?_ (fun _ _ ↦ id)
      · intro chunk' hchunk'
        obtain rfl : chunk = chunk' := by simpa using hchunk'
        omega
      · rintro found r'' ⟨chunk', others', hcons, hfetched', hlength, hdata, hread⟩
        refine ⟨chunk', others', hcons, ⟨hfetched.refilled.trans hfetched'.refilled, hfetched'.holds,
          hfetched'.le_start.trans hfetched.le_start, hfetched'.buffered, fun count hcount hposition ↦ ?_⟩,
          hlength, hdata, hread⟩
        exact hfetched'.dataPtr_le count hcount (hfetched.dataPtr_le count hcount hposition)

/-- The request goes on at `found`, with `head` left of a chunk and `chunks` after it. A get has
still all to get and its position has not come to stand further behind. -/
structure Proceeds (skip : Bool) (r : DataReader) (start size : ℤ) (head : List UInt8) (chunks : List Chunk)
    (found : ℤ × ℤ × ℤ) (r' : DataReader) : Prop where
  refilled : Refilled r r'
  holds : Holds r' found.1 (head ++ wireOf chunks)
  length_eq : (head.length : ℤ) = found.2.2
  size_pos : 0 < found.2.1
  size_le : found.2.1 ≤ size
  get_keeps : skip = false → found.2.1 = size ∧
    ∀ count, 0 ≤ count → r.dataPtr ≤ start + count → r'.dataPtr ≤ found.1 + count

theorem Proceeds.trans {found found' : ℤ × ℤ × ℤ} {head' : List UInt8} {chunks' : List Chunk} {r' r'' : DataReader}
    (h : Proceeds skip r start size head chunks found r')
    (h' : Proceeds skip r' found.1 found.2.1 head' chunks' found' r'') :
    Proceeds skip r start size head' chunks' found' r'' := by
  refine ⟨h.refilled.trans h'.refilled, h'.holds, h'.length_eq, h'.size_pos, h'.size_le.trans h.size_le,
    fun hget ↦ ?_⟩
  obtain ⟨hsize, hkeeps⟩ := h.get_keeps hget
  obtain ⟨hsize', hkeeps'⟩ := h'.get_keeps hget
  exact ⟨hsize'.trans hsize, fun count hcount hposition ↦ hkeeps' count hcount (hkeeps count hcount hposition)⟩

/-- A skip has passed over the rest of the chunk, and stands where the chunk ends. -/
theorem leaveChunk_spec (h : Holds r start (head ++ wireOf chunks)) (hhead : (head.length : ℤ) = remaining)
    (hsize : remaining < size) (hbuffer : HasBuffer r) :
    wp (leaveChunk skip start size remaining)
      (fun found r' ↦ ∃ head', Proceeds skip r start size head' chunks found r' ∧
        head'.length ≤ head.length ∧ found.2.2 < found.2.1 ∧ (skip = true → found.2.2 = 0) ∧
        (HeaderFits skip found.1 found.2.1 r' ↔ HeaderFits skip (skipTarget r start remaining) size r))
      (fun _ _ ↦ False) r := by
  cases skip with
  | false =>
    simp only [leaveChunk, Bool.false_eq_true, if_false, wp_pure]
    exact ⟨head, ⟨Refilled.refl r, h, hhead, by simp only; omega, le_rfl, fun _ ↦ ⟨rfl, fun _ _ ↦ id⟩⟩,
      le_rfl, hsize, False.elim, Iff.rfl⟩
  | true =>
    simp only [leaveChunk, if_true, wp_bind, wp_get, wp_pure]
    refine wp_mono (skipStream_spec h (by omega) hbuffer) ?_ ?_
    · rintro _ r' ⟨⟨hrefilled, hholds, -⟩, htarget⟩
      have hcast : remaining.toNat = head.length := by omega
      rw [hcast, List.drop_left] at hholds
      refine ⟨[], ⟨hrefilled, hholds, rfl, by simp only; omega, by simp only; omega, by simp⟩,
        Nat.zero_le _, by omega, fun _ ↦ trivial, ?_⟩
      obtain ⟨_, _, _, _, rfl⟩ := hrefilled
      rw [htarget]
      rfl
    · rintro _ r' ⟨⟨error, -, hshort⟩, -⟩
      rw [List.length_append] at hshort
      omega

theorem unwrapHeader_keeps {length : ℕ} :
    wp (unwrapHeader start remaining length) (fun p r' ↦ start ≤ p ∧ r'.dataPtr = r.dataPtr)
      (fun _ _ ↦ False) r := by
  simp only [unwrapHeader, wp_bind, wp_get, wp_ite, wp_set, wp_pure]
  refine ⟨fun _ ↦ ⟨fun _ ↦ ⟨fun _ ↦ ?_, fun _ ↦ ?_⟩, fun _ ↦ ?_⟩, fun _ ↦ ?_⟩
  · exact ⟨by omega, trivial⟩
  · exact ⟨by omega, trivial⟩
  · exact ⟨by omega, trivial⟩
  · exact ⟨le_rfl, trivial⟩

/-- The header is passed over or taken out, and the chunk behind it is the one that data is left of. -/
theorem passHeader_spec {chunk : Chunk} {others : List Chunk} {found : ℤ × ℕ × ℕ} {r' : DataReader}
    (h : HeaderFound skip r start size head chunk others found r') (hhead : (head.length : ℤ) = remaining)
    (hskip : skip = true → remaining = 0) :
    wp (passHeader skip found.1 size remaining found.2.1)
      (fun p r'' ↦ Refilled r' r'' ∧ Holds r'' p (head ++ chunk.data ++ wireOf others) ∧
        (skip = false → found.1 ≤ p ∧ r''.dataPtr = r'.dataPtr))
      (fun _ _ ↦ False) r' := by
  have hholds := h.fetched.holds
  have hbuffered := h.fetched.buffered
  rw [wireOf_cons] at hholds
  rw [h.length_eq, List.append_assoc]
  cases skip with
  | true =>
    have hwithin : r'.bufferStart ≤ found.1 := hholds.bufferStart_le
    have hempty := hskip rfl
    obtain rfl : head = [] := List.length_eq_zero_iff.mp (by omega)
    rw [List.nil_append] at hholds ⊢
    simp only [passHeader, if_true, wp_bind, wp_get, wp_check_of hwithin, wp_pure]
    have hadvance := hholds.advance chunk.header.length (by simp at hbuffered; omega)
    rw [List.drop_left] at hadvance
    exact ⟨Refilled.refl r', hadvance, by simp⟩
  | false =>
    have hread : r'.bufferStart ≤ found.1 ∧ chunkHeaderSizeMin + size ≤ r'.streamDataEnd - found.1 := by
      have hrequest := h.request_read rfl
      unfold chunkHeaderSizeMin
      exact ⟨hholds.bufferStart_le, by omega⟩
    simp only [passHeader, Bool.false_eq_true, if_false, wp_bind, wp_get, wp_check_of hread, wp_unchecked]
    have hunwrap := unwrapHeader_spec hholds hhead chunk.header_length_bounds.1 (by omega)
    refine wp_mono (wp_and hunwrap unwrapHeader_keeps) ?_ (fun _ _ ↦ And.left)
    rintro p r'' ⟨⟨hrefilled, hholds'⟩, hkeeps⟩
    exact ⟨hrefilled, hholds', fun _ ↦ hkeeps⟩

/-- Without room the first look for the header fails an assertion. -/
theorem readChunkHeader_fails {length : ℤ} {fuel : ℕ} (hroom : ¬ HeaderFits skip start size r) :
    FailsOne AboutRoom (readChunkHeader debug skip size remaining (fuel + 1) start length) r := by
  cases skip with
  | true =>
    simp only [FailsOne, readChunkHeader, requestHeader, if_true, wp_bind, wp_get, wp_check]
    exact ⟨fun hstart ↦ absurd hstart hroom, fun _ ↦ ⟨_, .inl rfl, rfl⟩⟩
  | false =>
    simp only [FailsOne, readChunkHeader, requestHeader, Bool.false_eq_true, if_false, wp_bind, wp_get,
      wp_check]
    exact ⟨fun hwhole ↦ absurd hwhole hroom, fun _ ↦ ⟨_, .inr rfl, rfl⟩⟩

/-- A chunk is entered with no assertion failing exactly if there is room for its header. -/
theorem enterChunk_spec (h : Holds r start (head ++ wireOf chunks)) (hhead : (head.length : ℤ) = remaining)
    (hsize : remaining < size) (hbuffer : HasBuffer r) (hfits : Fits skip size r) :
    Decides AboutRoom (ChunkExit.HasRoom ⟨skip, start, size, remaining, r⟩) (enterChunk debug skip start size remaining)
      (fun found r' ↦ ∃ head' chunks', Proceeds skip r start size head' chunks' found r' ∧
        (head' ++ wireOf chunks').length < (head ++ wireOf chunks).length) Disconnected r := by
  constructor
  · intro hroom
    simp only [enterChunk, wp_bind, wp_get, wp_check_of hsize]
    refine wp_mono (leaveChunk_spec h hhead hsize hbuffer) ?_ (fun _ _ ↦ False.elim)
    rintro ⟨p, left, remaining'⟩ r₁ ⟨head₁, hleave, hless, hlt, hempty, hiff⟩
    have hlength := hleave.holds.length_eq
    have hle := hleave.holds.le_streamDataEnd
    refine wp_mono (readChunkHeader_spec hleave.holds hleave.length_eq hlt hempty (by decide) (by decide)
      (hiff.mpr hroom) (hfits.mono hleave.size_le hleave.refilled) (Nat.succ_pos _) ?_) ?_ (fun _ _ ↦ id)
    · intro chunk hchunk
      obtain ⟨others, rfl⟩ := List.head?_eq_some_iff.mp hchunk
      simp only [wireOf_cons, List.length_append] at hlength
      unfold unread chunkHeaderSizeMin
      push_cast at hlength ⊢
      omega
    rintro ⟨p', length, nextSize⟩ r₂ ⟨chunk, others, rfl, hfound⟩
    have hnext : nextSize = chunk.data.length := hfound.size_eq
    have hmax : nextSize ≤ chunkSizeMax := hnext.trans_le chunk.data_length_le
    simp only [wp_check_of hmax]
    refine wp_mono (passHeader_spec hfound hleave.length_eq hempty) ?_ (fun _ _ ↦ False.elim)
    rintro p'' r₃ ⟨hrefilled, hholds, hget⟩
    have hwithin := hholds.le_streamDataEnd
    simp only [wp_check_of hwithin, wp_pure]
    have hpos := chunk.header_length_bounds
    refine ⟨head₁ ++ chunk.data, others, ⟨?_, hholds, ?_, ?_, hleave.size_le, fun hskip ↦ ?_⟩, ?_⟩
    · exact (hleave.refilled.trans hfound.fetched.refilled).trans hrefilled
    · have hlength₁ := hleave.length_eq
      simp only [List.length_append, Nat.cast_add] at hlength₁ ⊢
      omega
    · exact hleave.size_pos
    · obtain ⟨hsame, hkeeps⟩ := hleave.get_keeps hskip
      obtain ⟨hup, hposition⟩ := hget hskip
      refine ⟨hsame, fun count hcount hbehind ↦ ?_⟩
      have hfetched := hfound.fetched.dataPtr_le count hcount (hkeeps count hcount hbehind)
      simp only at hfetched hup ⊢
      omega
    · simp only [wireOf_cons, List.length_append]
      omega
  · intro hroom
    simp only [FailsOne, enterChunk, wp_bind, wp_get, wp_check_of hsize]
    refine wp_mono (leaveChunk_spec h hhead hsize hbuffer) ?_ (fun _ _ ↦ False.elim)
    rintro ⟨p, left, remaining'⟩ r₁ ⟨head₁, -, -, -, -, hiff⟩
    refine wp_mono (readChunkHeader_fails fun hfits' ↦ hroom (hiff.mp hfits')) ?_ (fun _ _ ↦ id)
    exact fun _ _ ↦ False.elim

theorem enterChunks_spec {fuel : ℕ} (h : Holds r start (head ++ wireOf chunks))
    (hhead : (head.length : ℤ) = remaining) (hsize : remaining < size) (hbuffer : HasBuffer r)
    (hfits : Fits skip size r) (hfuel : (head ++ wireOf chunks).length < fuel) :
    Decides AboutRoom (∀ exit ∈ loopExits debug skip fuel start size remaining r, exit.HasRoom)
      (enterChunks debug skip fuel start size remaining)
      (fun found r' ↦ ∃ head' chunks', Proceeds skip r start size head' chunks' found r' ∧
        found.2.1 ≤ found.2.2) Disconnected r := by
  induction fuel generalizing r start size remaining head chunks with
  | zero => omega
  | succ fuel ih =>
    have hnext (found : ℤ × ℤ × ℤ) (r' : DataReader)
        (_ : enterChunk debug skip start size remaining r = .ok found r')
        (hfound : ∃ head' chunks', Proceeds skip r start size head' chunks' found r' ∧
          (head' ++ wireOf chunks').length < (head ++ wireOf chunks).length) :
        Decides AboutRoom (∀ exit ∈ if found.2.2 < found.2.1 then loopExits debug skip fuel found.1 found.2.1 found.2.2 r'
            else [], exit.HasRoom)
          (if found.2.2 < found.2.1 then enterChunks debug skip fuel found.1 found.2.1 found.2.2
            else pure found)
          (fun found r' ↦ ∃ head' chunks', Proceeds skip r start size head' chunks' found r' ∧
            found.2.1 ≤ found.2.2) Disconnected r' := by
      obtain ⟨head', chunks', hgoes, hless⟩ := hfound
      by_cases hmore : found.2.2 < found.2.1
      · simp only [if_pos hmore]
        have hbuffer' : HasBuffer r' := hgoes.refilled.buffer_pos hbuffer
        refine (ih hgoes.holds hgoes.length_eq hmore hbuffer' (hfits.mono hgoes.size_le hgoes.refilled)
          (by omega)).mono ?_
        rintro found' r'' ⟨head'', chunks'', hgoes', hdone⟩
        exact ⟨head'', chunks'', hgoes.trans hgoes', hdone⟩
      · simp only [if_neg hmore]
        exact decides_of_wp (wp_pure.mpr ⟨head', chunks', hgoes, not_lt.mp hmore⟩) (by simp)
    refine ((enterChunk_spec h hhead hsize hbuffer hfits).bind hnext).congr ?_
    simp only [loopExits, List.forall_mem_cons, forall_mem_collect]

end DxApi.Reader.Checked
