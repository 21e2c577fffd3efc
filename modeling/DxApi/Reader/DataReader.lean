import DxApi.Reader.Chunked

/-!
# Reading data

The member functions a decoder calls: `bytes` and `peek` give contiguous data, `skip` passes over it
and `getBytes` copies it. Inside the buffered data they move a pointer; at its end they call the
virtual functions `get` and `skip` of one of four classes. `Ready` is what every call needs and
keeps: the payload ahead, and for a class that reads messages how much of the content is left.
-/

namespace DxApi.Reader

open Exec ByteMemory

/-! ## The source -/

/-- The classes that implement `get` and `skip`. -/
inductive ReaderClass
  | base
  | httpChunked
  | msg
  | msgHTTPchunked
  deriving DecidableEq, Repr

def ReaderClass.isChunked : ReaderClass → Bool
  | .base | .msg => false
  | .httpChunked | .msgHTTPchunked => true

def ReaderClass.isMsg : ReaderClass → Bool
  | .base | .httpChunked => false
  | .msg | .msgHTTPchunked => true

/-- `DataReaderBaseImpl::get_inl`. -/
def getInl (start size : ℤ) : ReaderM ℤ := do
  let p ← getFromStream start size
  modify fun r ↦ { r with dataEnd := r.streamDataEnd }
  return p

/-- `DataReaderBaseImpl::skip_inl`. -/
def skipInl (start size : ℤ) : ReaderM Unit := do
  skipStream start size
  modify fun r ↦ { r with dataEnd := r.streamDataEnd }

/-- What the message classes do after a `get` or a `skip`: the content ends at `contentEnd`. -/
def limitContent (contentEnd : ℤ) : ReaderM Unit :=
  modify fun r ↦ { r with
    contentEnd := contentEnd
    dataEnd0 := r.dataEnd
    dataEnd := min contentEnd r.dataEnd }

/-- A `get` that stays within the content: the limit moves with the data. -/
def getWithinContent (inner : ℤ → ℤ → ReaderM ℤ) (beyond : ℤ → ReadError) (pData size : ℤ) : ReaderM ℤ := do
  let r ← get
  if pData + size ≤ r.contentEnd then
    let pDataNew ← inner pData size
    limitContent (r.contentEnd + (pDataNew - pData))
    return pDataNew
  else
    throw (beyond (pData + size - r.contentEnd))

/-- `DataReaderMsg::get`. -/
def getMsg : ℤ → ℤ → ReaderM ℤ := getWithinContent getInl .readBeyondContent

/-- `DataReaderMsgHTTPchunked::get`. -/
def getMsgHTTPchunked : ℤ → ℤ → ReaderM ℤ :=
  getWithinContent (getOrSkipChunked false) .readBeyondMessage

/-- `DataReaderMsg::skip`. -/
def skipMsg (pData size : ℤ) : ReaderM Unit := do
  let r ← get
  if pData + size ≤ r.contentEnd then
    let remaining := r.contentEnd - pData - size
    skipInl pData size
    let r ← get
    limitContent (r.dataPtr + remaining)
  else
    throw (.skipBeyondContent (pData + size - r.contentEnd))

/-- `DataReaderMsgHTTPchunked::skip`. -/
def skipMsgHTTPchunked (pData size : ℤ) : ReaderM Unit := do
  let r ← get
  if pData + size ≤ r.contentEnd then
    let _ ← getOrSkipChunked true pData size
    let r ← get
    limitContent (r.contentEnd + (r.dataPtr - (pData + size)))
  else
    throw (.skipBeyondMessage (pData + size - r.contentEnd))

/-- The virtual function `get`. -/
def getVirtual : ReaderClass → ℤ → ℤ → ReaderM ℤ
  | .base => getInl
  | .httpChunked => getOrSkipChunked false
  | .msg => getMsg
  | .msgHTTPchunked => getMsgHTTPchunked

/-- The virtual function `skip`. -/
def skipVirtual : ReaderClass → ℤ → ℤ → ReaderM Unit
  | .base, start, size => skipInl start size
  | .httpChunked, start, size => do let _ ← getOrSkipChunked true start size
  | .msg, start, size => skipMsg start size
  | .msgHTTPchunked, start, size => skipMsgHTTPchunked start size

/-- `DataReader::onReadBarrier`. -/
def onReadBarrier (cls : ReaderClass) (start size : ℤ) : ReaderM ℤ := do
  let start ← getVirtual cls start size
  modify fun r ↦ { r with dataPtr := start + size }
  return start

/-- `DataReaderBaseImpl::onPeekBarrier`. -/
def onPeekBarrier (cls : ReaderClass) (start size : ℤ) : ReaderM ℤ := do
  let start ← getVirtual cls start size
  modify fun r ↦ { r with dataPtr := start }
  return start

/-- `DataReader::bytes`: the place of `size` contiguous bytes, which are read. -/
def bytes (cls : ReaderClass) (size : ℤ) : ReaderM ℤ := do
  let r ← get
  let p := r.dataPtr
  set { r with dataPtr := p + size }
  if r.dataEnd < p + size then onReadBarrier cls p size else return p

/-- `DataReaderInternal::peek`: the place of `size` contiguous bytes, which stay unread. -/
def peek (cls : ReaderClass) (size : ℤ) : ReaderM ℤ := do
  let r ← get
  if r.dataEnd < r.dataPtr + size then onPeekBarrier cls r.dataPtr size else return r.dataPtr

/-- `DataReader::skip`. -/
def skip (cls : ReaderClass) (size : ℤ) : ReaderM Unit := do
  let r ← get
  let p := r.dataPtr
  set { r with dataPtr := p + size }
  if r.dataEnd < p + size then skipVirtual cls p size

/-- The loop of `getBytes`: what is buffered is copied and at least one more byte is fetched. -/
def copyBuffered (cls : ReaderClass) : ℕ → ℤ → ℕ → ReaderM (List UInt8)
  | 0, _, _ => throw .diverged
  | fuel + 1, p, dataLength => do
    let r ← get
    let n := r.dataEnd - p
    if n < dataLength then
      let copied := ByteMemory.bytes r.mem p n.toNat
      let p ← getVirtual cls (p + n) 1
      return copied ++ (← copyBuffered cls fuel p (dataLength - n.toNat))
    else
      set { r with dataPtr := p + dataLength }
      return ByteMemory.bytes r.mem p dataLength

/-- `DataReaderInternal::getBytes`: the bytes copied to the destination. -/
def getBytes (cls : ReaderClass) (dataLength : ℕ) : ReaderM (List UInt8) := do
  let r ← get
  copyBuffered cls (dataLength + 1) r.dataPtr dataLength

/-! ## The invariant of a reader -/

/-- The end of what is buffered of the current chunk. -/
def available (cls : ReaderClass) (r : DataReader) : ℤ :=
  if cls.isChunked then min r.streamDataEnd r.chunkEnd else r.streamDataEnd

/-- The payload from `p` on is `rest`. -/
def At (cls : ReaderClass) (r : DataReader) (p : ℤ) (rest : List UInt8) : Prop :=
  if cls.isChunked then ∃ raw, Crossing r p (r.chunkEnd - p) raw rest else Holds r p rest

/-- The payload from `p` on is `rest` and all buffered data may be read; of a message class only
as long as it is part of the `left` bytes of content. -/
structure Ready (cls : ReaderClass) (r : DataReader) (p : ℤ) (rest : List UInt8) (left : ℤ) : Prop where
  at_rest : At cls r p rest
  dataEnd_eq : r.dataEnd = if cls.isMsg then min r.contentEnd (available cls r) else available cls r
  contentEnd_eq : cls.isMsg → r.contentEnd = p + left ∧ 0 ≤ left ∧ r.dataEnd0 = available cls r

/-- The buffer is not empty, as every constructor is given it. -/
def HasBuffer (r : DataReader) : Prop :=
  r.bufferStart < r.bufferEnd

/-- A call for `size` bytes asks for more than there is, or than the content has left. -/
def Exceeds (cls : ReaderClass) (rest : List UInt8) (left size : ℤ) : Prop :=
  rest.length < size ∨ (cls.isMsg ∧ left < size)

/-- The contiguous bytes a call for `size` bytes may need. -/
def contiguous (cls : ReaderClass) (skip : Bool) (size : ℤ) : ℤ :=
  if cls.isChunked then headerRequest skip size chunkHeaderSizeMax else if skip then 1 else size

/-- The buffer is large enough for a call of `getVirtual` or `skipVirtual`. -/
def HasRoom (cls : ReaderClass) (skip : Bool) (size : ℤ) (r : DataReader) : Prop :=
  contiguous cls skip size ≤ r.bufferEnd - r.bufferStart

/-- `r'` is `r` up to the buffer and the places of chunk and content in it. -/
def Moved (r r' : DataReader) : Prop :=
  ∃ mem dataPtr dataEnd contentEnd streamDataEnd s dataEnd0 chunkEnd,
    r' = { r with mem, dataPtr, dataEnd, contentEnd, streamDataEnd, s, dataEnd0, chunkEnd }

theorem Moved.refl (r : DataReader) : Moved r r := ⟨_, _, _, _, _, _, _, _, rfl⟩

theorem Moved.trans {r₁ r₂ r₃ : DataReader} (h : Moved r₁ r₂) (h' : Moved r₂ r₃) : Moved r₁ r₃ := by
  obtain ⟨_, _, _, _, _, _, _, _, rfl⟩ := h
  obtain ⟨_, _, _, _, _, _, _, _, rfl⟩ := h'
  exact ⟨_, _, _, _, _, _, _, _, rfl⟩

theorem moved_dataPtr (r : DataReader) (dataPtr : ℤ) : Moved r { r with dataPtr := dataPtr } :=
  ⟨_, _, _, _, _, _, _, _, rfl⟩

theorem Moved.buffer_eq {r r' : DataReader} (h : Moved r r') :
    r'.bufferStart = r.bufferStart ∧ r'.bufferEnd = r.bufferEnd := by
  obtain ⟨_, _, _, _, _, _, _, _, rfl⟩ := h
  exact ⟨rfl, rfl⟩

theorem Relocated.moved {r r' : DataReader} (h : Relocated r r') : Moved r r' := by
  obtain ⟨_, _, _, _, _, _, rfl⟩ := h
  exact ⟨_, _, _, _, _, _, _, _, rfl⟩

theorem Moved.hasRoom {cls : ReaderClass} {skip : Bool} {size : ℤ} {r r' : DataReader} (h : Moved r r') :
    HasRoom cls skip size r' ↔ HasRoom cls skip size r := by
  obtain ⟨_, _, _, _, _, _, _, _, rfl⟩ := h
  rfl

theorem Moved.hasBuffer {r r' : DataReader} (h : Moved r r') : HasBuffer r' ↔ HasBuffer r := by
  obtain ⟨_, _, _, _, _, _, _, _, rfl⟩ := h
  rfl

variable {cls : ReaderClass} {r : DataReader} {p size left : ℤ} {rest : List UInt8}

theorem at_chunked (h : cls.isChunked) :
    At cls r p rest ↔ ∃ raw, Crossing r p (r.chunkEnd - p) raw rest := by
  rw [At, if_pos h]

theorem at_plain (h : ¬ cls.isChunked) : At cls r p rest ↔ Holds r p rest := by
  rw [At, if_neg h]

theorem available_chunked (h : cls.isChunked) : available cls r = min r.streamDataEnd r.chunkEnd := by
  rw [available, if_pos h]

theorem available_plain (h : ¬ cls.isChunked) : available cls r = r.streamDataEnd := by
  rw [available, if_neg h]

/-- The payload depends on the data in the buffer and on the stream, on no limit and no position. -/
theorem At.congr {r' : DataReader} (h : At cls r p rest) (hmem : r'.mem = r.mem) (hs : r'.s = r.s)
    (hstart : r'.bufferStart = r.bufferStart) (hend : r'.bufferEnd = r.bufferEnd)
    (hstop : r'.streamDataEnd = r.streamDataEnd) (hchunk : r'.chunkEnd = r.chunkEnd) : At cls r' p rest := by
  have hholds : ∀ raw, Holds r p raw → Holds r' p raw := by
    rintro raw ⟨hle, hle', hle'', hraw⟩
    exact ⟨hstart ▸ hle, hstop ▸ hle', by rw [hstop, hend]; exact hle'', by rw [hmem, hs, hstop, hraw]⟩
  by_cases hcls : cls.isChunked
  · rw [at_chunked hcls] at h ⊢
    obtain ⟨raw, hraw, hinside⟩ := h
    exact ⟨raw, hholds raw hraw, by rw [hchunk]; exact hinside⟩
  · rw [at_plain hcls] at h ⊢
    exact hholds rest h

theorem At.le_available (h : At cls r p rest) : p ≤ available cls r := by
  by_cases hcls : cls.isChunked
  · rw [at_chunked hcls] at h
    rw [available_chunked hcls]
    obtain ⟨raw, hholds, head, _, hhead, _⟩ := h
    have hle := hholds.le_streamDataEnd
    omega
  · rw [at_plain hcls] at h
    rw [available_plain hcls]
    exact h.le_streamDataEnd

theorem Holds.bytes_eq {raw : List UInt8} (h : Holds r p raw) {count : ℕ}
    (hle : p + count ≤ r.streamDataEnd) : ByteMemory.bytes r.mem p count = raw.take count := by
  rw [← h.raw_eq, List.take_append_of_le_length (by rw [length_slice]; omega), take_slice _ _ hle]

/-- Data that is buffered is the payload. -/
theorem At.bytes_eq (h : At cls r p rest) {count : ℕ} (hle : p + count ≤ available cls r) :
    ByteMemory.bytes r.mem p count = rest.take count ∧ count ≤ rest.length := by
  by_cases hcls : cls.isChunked
  · rw [at_chunked hcls] at h
    rw [available_chunked hcls] at hle
    obtain ⟨raw, hholds, hchunk⟩ := h
    have htake := hchunk.take_eq count (by omega)
    refine ⟨(hholds.bytes_eq (by omega)).trans htake, ?_⟩
    obtain ⟨head, chunks, hhead, -, rfl⟩ := hchunk
    rw [List.length_append]
    omega
  · rw [at_plain hcls] at h
    rw [available_plain hcls] at hle
    have hlength := h.length_eq
    exact ⟨h.bytes_eq hle, by omega⟩

/-- The payload after buffered data. -/
theorem At.advance (h : At cls r p rest) {count : ℕ} (hle : p + count ≤ available cls r) :
    At cls r (p + count) (rest.drop count) := by
  by_cases hcls : cls.isChunked
  · rw [at_chunked hcls] at h ⊢
    rw [available_chunked hcls] at hle
    obtain ⟨raw, hholds, hchunk⟩ := h
    have hdrop := hchunk.drop count (by omega)
    rw [Int.sub_sub] at hdrop
    exact ⟨raw.drop count, hholds.advance count (by omega), hdrop⟩
  · rw [at_plain hcls] at h ⊢
    rw [available_plain hcls] at hle
    exact h.advance count hle

/-- A reader's position determines the payload ahead. -/
theorem At.unique {other : List UInt8} (h : At cls r p rest) (h' : At cls r p other) : rest = other := by
  by_cases hcls : cls.isChunked
  · rw [at_chunked hcls] at h h'
    obtain ⟨raw, hholds, hchunk⟩ := h
    obtain ⟨raw', hholds', hchunk'⟩ := h'
    obtain rfl : raw = raw' := by rw [← hholds.raw_eq, ← hholds'.raw_eq]
    exact hchunk.unique hchunk'
  · rw [at_plain hcls] at h h'
    rw [← h.raw_eq, ← h'.raw_eq]

/-! ## The virtual functions -/

/-- The part of `get` that the message classes share with the others. -/
def fetch (cls : ReaderClass) : ℤ → ℤ → ReaderM ℤ :=
  if cls.isChunked then getOrSkipChunked false else getInl

theorem fetch_spec (h : At cls r p rest) (hsize : 0 < size) (hbuffer : HasBuffer r) :
    wp (fetch cls p size)
      (fun p' r' ↦ Relocated r r' ∧ At cls r' p' rest ∧ r'.dataEnd = available cls r' ∧
        p' + size ≤ r'.dataEnd ∧ size ≤ rest.length)
      (fun _ _ ↦ rest.length < size ∨ ¬ HasRoom cls false size r) r := by
  by_cases hcls : cls.isChunked
  · rw [at_chunked hcls] at h
    obtain ⟨raw, hcrossing⟩ := h
    have hfits : HasRoom cls false size r ↔ Fits false size r := by
      simp only [HasRoom, contiguous, if_pos hcls, Fits]
    rw [fetch, if_pos hcls, hfits]
    refine wp_mono (getOrSkipChunked_spec hcrossing hsize hbuffer) ?_ (fun _ _ ↦ id)
    rintro p' r' ⟨hrelocated, hdataEnd, _, hget, hlength, hcrossing'⟩
    refine ⟨hrelocated, (at_chunked hcls).mpr ?_, ?_, hget rfl, hlength⟩
    · simpa using hcrossing'
    · rw [available_chunked hcls, hdataEnd]
  · rw [at_plain hcls] at h
    have hfits : HasRoom cls false size r ↔ size ≤ r.bufferEnd - r.bufferStart := by
      simp only [HasRoom, contiguous, if_neg hcls, Bool.false_eq_true, if_false]
    rw [fetch, if_neg hcls, hfits, not_le]
    simp only [getInl, wp_bind, wp_modify, wp_pure]
    refine wp_mono (getFromStream_spec h) ?_ (fun _ _ ↦ id)
    rintro p' r' ⟨⟨mem, dataPtr, streamDataEnd, s, hr'⟩, hholds, hcount⟩
    subst hr'
    have hlength := hholds.length_eq
    obtain ⟨hstart, hstop, hend, hraw⟩ := hholds
    refine ⟨⟨_, _, _, _, _, _, rfl⟩, (at_plain hcls).mpr ⟨hstart, hstop, hend, hraw⟩, ?_, hcount, ?_⟩
    · rw [available_plain hcls]
    · omega

/-- The part of `skip` that the message classes share with the others. -/
def pass (cls : ReaderClass) (start size : ℤ) : ReaderM Unit :=
  if cls.isChunked then do let _ ← getOrSkipChunked true start size else skipInl start size

theorem pass_spec (h : At cls r p rest) (hsize : 0 < size) (hbuffer : HasBuffer r) :
    wp (pass cls p size)
      (fun _ r' ↦ Relocated r r' ∧ At cls r' r'.dataPtr (rest.drop size.toNat) ∧
        r'.dataEnd = available cls r' ∧ size ≤ rest.length)
      (fun _ _ ↦ rest.length < size ∨ ¬ HasRoom cls true size r) r := by
  by_cases hcls : cls.isChunked
  · rw [at_chunked hcls] at h
    obtain ⟨raw, hcrossing⟩ := h
    have hfits : HasRoom cls true size r ↔ Fits true size r := by
      simp only [HasRoom, contiguous, if_pos hcls, Fits]
    rw [pass, if_pos hcls, hfits]
    simp only [wp_bind, wp_pure]
    refine wp_mono (getOrSkipChunked_spec hcrossing hsize hbuffer) ?_ (fun _ _ ↦ id)
    rintro p' r' ⟨hrelocated, hdataEnd, hskip, _, hlength, hcrossing'⟩
    refine ⟨hrelocated, (at_chunked hcls).mpr ?_, ?_, hlength⟩
    · rw [← hskip rfl]
      simpa using hcrossing'
    · rw [available_chunked hcls, hdataEnd]
  · rw [at_plain hcls] at h
    rw [pass, if_neg hcls]
    simp only [skipInl, wp_bind, wp_modify]
    refine wp_mono (skipStream_spec h hsize.le hbuffer) ?_ (fun _ _ ↦ .inl)
    rintro _ r' ⟨⟨mem, dataPtr, streamDataEnd, s, hr'⟩, ⟨hstart, hstop, hend, hraw⟩, hlength⟩
    subst hr'
    refine ⟨⟨_, _, _, _, _, _, rfl⟩, (at_plain hcls).mpr ⟨hstart, hstop, hend, hraw⟩, ?_, hlength⟩
    rw [available_plain hcls]

theorem Relocated.contentEnd_eq {r r' : DataReader} (h : Relocated r r') :
    r'.contentEnd = r.contentEnd := by
  obtain ⟨_, _, _, _, _, _, rfl⟩ := h
  rfl

theorem not_exceeds (hrest : size ≤ rest.length) (hleft : cls.isMsg → size ≤ left) :
    ¬ Exceeds cls rest left size := by
  rintro (hshort | ⟨hmsg, hshort⟩)
  · omega
  · have := hleft hmsg
    omega

/-- The content limit moves with the data, so that as much of the content is left as before. -/
theorem limitContent_spec {r' : DataReader} {contentEnd : ℤ} (hmsg : cls.isMsg) (hrelocated : Relocated r r')
    (hat : At cls r' p rest) (hdataEnd : r'.dataEnd = available cls r') (hend : contentEnd = p + left)
    (hleft : 0 ≤ left) :
    wp (limitContent contentEnd)
      (fun _ r'' ↦ Moved r r'' ∧ Ready cls r'' p rest left ∧ r''.dataPtr = r'.dataPtr ∧
        r''.dataEnd = min contentEnd r'.dataEnd) (fun _ _ ↦ False) r' := by
  simp only [limitContent, wp_modify]
  refine ⟨?_, ⟨hat.congr rfl rfl rfl rfl rfl rfl, ?_, fun _ ↦ ⟨hend, hleft, hdataEnd⟩⟩, trivial, trivial⟩
  · obtain ⟨_, _, _, _, _, _, rfl⟩ := hrelocated
    exact ⟨_, _, _, _, _, _, _, _, rfl⟩
  · rw [if_pos hmsg, hdataEnd]
    rfl

theorem getVirtual_spec (h : Ready cls r p rest left) (hsize : 0 < size)
    (hbuffer : HasBuffer r) :
    wp (getVirtual cls p size)
      (fun p' r' ↦ Moved r r' ∧ Ready cls r' p' rest left ∧ p' + size ≤ r'.dataEnd ∧
        ¬ Exceeds cls rest left size)
      (fun _ _ ↦ Exceeds cls rest left size ∨ ¬ HasRoom cls false size r) r := by
  have hfetch := fetch_spec h.at_rest hsize hbuffer
  by_cases hmsg : cls.isMsg
  · obtain ⟨hend, hleft, hend0⟩ := h.contentEnd_eq hmsg
    obtain ⟨beyond, heq⟩ : ∃ beyond, getVirtual cls = getWithinContent (fetch cls) beyond := by
      cases cls with
      | base => simp [ReaderClass.isMsg] at hmsg
      | httpChunked => simp [ReaderClass.isMsg] at hmsg
      | msg => exact ⟨.readBeyondContent, rfl⟩
      | msgHTTPchunked => exact ⟨.readBeyondMessage, rfl⟩
    simp only [heq, getWithinContent, wp_bind, wp_get, wp_ite, wp_throw, wp_pure]
    constructor
    · intro hinside
      refine wp_mono hfetch ?_ (fun _ _ ↦ Or.imp_left .inl)
      rintro p' r' ⟨hrelocated, hat, hdataEnd, hcount, hlength⟩
      refine wp_mono (limitContent_spec hmsg hrelocated hat hdataEnd (by omega) hleft) ?_
        (fun _ _ ↦ False.elim)
      rintro _ r'' ⟨hmoved, hready, _, hmin⟩
      exact ⟨hmoved, hready, by omega, not_exceeds hlength (fun _ ↦ by omega)⟩
    · intro hbeyond
      exact .inl (.inr ⟨hmsg, by omega⟩)
  · have heq : getVirtual cls = fetch cls := by
      cases cls <;> first | rfl | simp [ReaderClass.isMsg] at hmsg
    rw [heq]
    refine wp_mono hfetch ?_ (fun _ _ ↦ Or.imp_left .inl)
    rintro p' r' ⟨hrelocated, hat, hdataEnd, hcount, hlength⟩
    exact ⟨hrelocated.moved, ⟨hat, by rw [if_neg hmsg, hdataEnd], fun habs ↦ absurd habs hmsg⟩, hcount,
      not_exceeds hlength (fun habs ↦ absurd habs hmsg)⟩

theorem skipVirtual_spec (h : Ready cls r p rest left) (hsize : 0 < size)
    (hbuffer : HasBuffer r) :
    wp (skipVirtual cls p size)
      (fun _ r' ↦ Moved r r' ∧ Ready cls r' r'.dataPtr (rest.drop size.toNat) (left - size) ∧
        ¬ Exceeds cls rest left size)
      (fun _ _ ↦ Exceeds cls rest left size ∨ ¬ HasRoom cls true size r) r := by
  have hpass := pass_spec h.at_rest hsize hbuffer
  cases cls with
  | base =>
    refine wp_mono hpass ?_ (fun _ _ ↦ Or.imp_left .inl)
    rintro _ r' ⟨hrelocated, hat, hdataEnd, hlength⟩
    exact ⟨hrelocated.moved, ⟨hat, hdataEnd, fun habs ↦ by cases habs⟩,
      not_exceeds hlength (fun habs ↦ by cases habs)⟩
  | httpChunked =>
    refine wp_mono hpass ?_ (fun _ _ ↦ Or.imp_left .inl)
    rintro _ r' ⟨hrelocated, hat, hdataEnd, hlength⟩
    exact ⟨hrelocated.moved, ⟨hat, hdataEnd, fun habs ↦ by cases habs⟩,
      not_exceeds hlength (fun habs ↦ by cases habs)⟩
  | msg =>
    obtain ⟨hend, hleft, hend0⟩ := h.contentEnd_eq rfl
    simp only [skipVirtual, skipMsg, wp_bind, wp_get, wp_ite, wp_throw]
    refine ⟨fun hinside ↦ ?_, fun hbeyond ↦ .inl (.inr ⟨rfl, by omega⟩)⟩
    refine wp_mono hpass ?_ (fun _ _ ↦ Or.imp_left .inl)
    rintro _ r' ⟨hrelocated, hat, hdataEnd, hlength⟩
    refine wp_mono (limitContent_spec rfl hrelocated hat hdataEnd ?_ (by omega : 0 ≤ left - size)) ?_
      (fun _ _ ↦ False.elim)
    · omega
    · rintro _ r'' ⟨hmoved, hready, hptr, _⟩
      rw [hptr]
      exact ⟨hmoved, hready, not_exceeds hlength (fun _ ↦ by omega)⟩
  | msgHTTPchunked =>
    obtain ⟨hend, hleft, hend0⟩ := h.contentEnd_eq rfl
    simp only [skipVirtual, skipMsgHTTPchunked, wp_bind, wp_get, wp_ite, wp_throw]
    refine ⟨fun hinside ↦ ?_, fun hbeyond ↦ .inl (.inr ⟨rfl, by omega⟩)⟩
    have hpass' := wp_bind.mp hpass
    refine wp_mono hpass' ?_ (fun _ _ ↦ Or.imp_left .inl)
    rintro _ r' ⟨hrelocated, hat, hdataEnd, hlength⟩
    have hsame := hrelocated.contentEnd_eq
    refine wp_mono (limitContent_spec rfl hrelocated hat hdataEnd ?_ (by omega : 0 ≤ left - size)) ?_
      (fun _ _ ↦ False.elim)
    · omega
    · rintro _ r'' ⟨hmoved, hready, hptr, _⟩
      rw [hptr]
      exact ⟨hmoved, hready, not_exceeds hlength (fun _ ↦ by omega)⟩

/-! ## The calls of a decoder -/

theorem Ready.withDataPtr (h : Ready cls r p rest left) (dataPtr : ℤ) :
    Ready cls { r with dataPtr := dataPtr } p rest left :=
  ⟨h.at_rest.congr rfl rfl rfl rfl rfl rfl, h.dataEnd_eq, h.contentEnd_eq⟩

theorem Ready.dataEnd_le (h : Ready cls r p rest left) : r.dataEnd ≤ available cls r := by
  rw [h.dataEnd_eq]
  split <;> omega

theorem Ready.le_dataEnd (h : Ready cls r p rest left) : p ≤ r.dataEnd := by
  have hle := h.at_rest.le_available
  rw [h.dataEnd_eq]
  split
  · rename_i hmsg
    have hcontent := h.contentEnd_eq hmsg
    omega
  · exact hle

/-- Inside the buffered data the position moves and nothing else does. -/
theorem Ready.advance (h : Ready cls r p rest left) {count : ℕ} (hle : p + count ≤ r.dataEnd) :
    Ready cls r (p + count) (rest.drop count) (left - count) := by
  have havailable := h.dataEnd_le
  refine ⟨h.at_rest.advance (by omega), h.dataEnd_eq, fun hmsg ↦ ?_⟩
  have hcontent := h.contentEnd_eq hmsg
  have hdataEnd := h.dataEnd_eq
  rw [if_pos hmsg] at hdataEnd
  omega

theorem Ready.bytes_eq (h : Ready cls r p rest left) {count : ℕ} (hle : p + count ≤ r.dataEnd) :
    ByteMemory.bytes r.mem p count = rest.take count ∧ ¬ Exceeds cls rest left count := by
  have havailable := h.dataEnd_le
  obtain ⟨hbytes, hlength⟩ := h.at_rest.bytes_eq (by omega : p + count ≤ available cls r)
  refine ⟨hbytes, not_exceeds (by omega) fun hmsg ↦ ?_⟩
  have hcontent := h.contentEnd_eq hmsg
  have hdataEnd := h.dataEnd_eq
  rw [if_pos hmsg] at hdataEnd
  omega

theorem bytes_spec {n : ℕ} (h : Ready cls r r.dataPtr rest left) (hbuffer : HasBuffer r) :
    wp (bytes cls n)
      (fun p' r' ↦ Moved r r' ∧ Ready cls r' r'.dataPtr (rest.drop n) (left - n) ∧
        ByteMemory.bytes r'.mem p' n = rest.take n ∧ ¬ Exceeds cls rest left n)
      (fun _ _ ↦ Exceeds cls rest left n ∨ ¬ HasRoom cls false n r) r := by
  have hle := h.le_dataEnd
  simp only [bytes, wp_bind, wp_get, wp_set, wp_ite, wp_pure, not_lt]
  constructor
  · intro hbarrier
    simp only [onReadBarrier, wp_bind, wp_modify, wp_pure]
    refine wp_mono (getVirtual_spec (h.withDataPtr _) (by omega) hbuffer) ?_ (fun _ _ ↦ id)
    rintro p' r' ⟨hmoved, hready, hcount, hexceeds⟩
    refine ⟨?_, ?_, (hready.bytes_eq hcount).1, hexceeds⟩
    · exact ((moved_dataPtr r _).trans hmoved).trans (moved_dataPtr r' _)
    · exact (hready.advance hcount).withDataPtr _
  · intro hbuffered
    obtain ⟨hbytes, hexceeds⟩ := h.bytes_eq hbuffered
    exact ⟨moved_dataPtr r _, (h.advance hbuffered).withDataPtr _, hbytes, hexceeds⟩

theorem peek_spec {n : ℕ} (h : Ready cls r r.dataPtr rest left) (hbuffer : HasBuffer r) :
    wp (peek cls n)
      (fun p' r' ↦ Moved r r' ∧ Ready cls r' r'.dataPtr rest left ∧
        ByteMemory.bytes r'.mem p' n = rest.take n ∧ ¬ Exceeds cls rest left n)
      (fun _ _ ↦ Exceeds cls rest left n ∨ ¬ HasRoom cls false n r) r := by
  have hle := h.le_dataEnd
  simp only [peek, wp_bind, wp_get, wp_ite, wp_pure, not_lt]
  constructor
  · intro hbarrier
    simp only [onPeekBarrier, wp_bind, wp_modify, wp_pure]
    refine wp_mono (getVirtual_spec h (by omega) hbuffer) ?_ (fun _ _ ↦ id)
    rintro p' r' ⟨hmoved, hready, hcount, hexceeds⟩
    exact ⟨hmoved.trans (moved_dataPtr r' _), hready.withDataPtr _, (hready.bytes_eq hcount).1, hexceeds⟩
  · intro hbuffered
    obtain ⟨hbytes, hexceeds⟩ := h.bytes_eq hbuffered
    exact ⟨Moved.refl r, h, hbytes, hexceeds⟩

theorem skip_spec {n : ℕ} (h : Ready cls r r.dataPtr rest left) (hbuffer : HasBuffer r) :
    wp (skip cls n)
      (fun _ r' ↦ Moved r r' ∧ Ready cls r' r'.dataPtr (rest.drop n) (left - n) ∧
        ¬ Exceeds cls rest left n)
      (fun _ _ ↦ Exceeds cls rest left n ∨ ¬ HasRoom cls true n r) r := by
  have hle := h.le_dataEnd
  simp only [skip, wp_bind, wp_get, wp_set, wp_ite, wp_pure, not_lt]
  constructor
  · intro hbarrier
    refine wp_mono (skipVirtual_spec (h.withDataPtr _) (by omega) hbuffer) ?_ (fun _ _ ↦ id)
    rintro _ r' ⟨hmoved, hready, hexceeds⟩
    exact ⟨(moved_dataPtr r _).trans hmoved, by simpa using hready, hexceeds⟩
  · intro hbuffered
    obtain ⟨-, hexceeds⟩ := h.bytes_eq hbuffered
    exact ⟨moved_dataPtr r _, (h.advance hbuffered).withDataPtr _, hexceeds⟩

theorem Exceeds.of_drop {n : ℕ} (h : Exceeds cls (rest.drop n) (left - n) size) :
    Exceeds cls rest left (n + size) := by
  rcases h with hshort | ⟨hmsg, hshort⟩
  · rw [List.length_drop] at hshort
    exact .inl (by omega)
  · exact .inr ⟨hmsg, by omega⟩

/-- What is buffered is copied piece by piece, each piece but the first of at least one byte. -/
theorem copyBuffered_spec {fuel n : ℕ} (h : Ready cls r p rest left) (hbuffer : HasBuffer r)
    (hfuel : 0 < fuel) (henough : (n : ℤ) + 1 ≤ fuel + min (r.dataEnd - p) 1) :
    wp (copyBuffered cls fuel p n)
      (fun copied r' ↦ Moved r r' ∧ Ready cls r' r'.dataPtr (rest.drop n) (left - n) ∧
        copied = rest.take n ∧ ¬ Exceeds cls rest left n)
      (fun _ _ ↦ Exceeds cls rest left n ∨ ¬ HasRoom cls false 1 r) r := by
  induction fuel generalizing r p rest left n with
  | zero => omega
  | succ fuel ih =>
    have hle := h.le_dataEnd
    simp only [copyBuffered, wp_bind, wp_get, wp_ite, wp_set, wp_pure, not_lt]
    constructor
    · intro hshort
      obtain ⟨count, hcount⟩ : ∃ count : ℕ, r.dataEnd - p = count := ⟨(r.dataEnd - p).toNat, by omega⟩
      have hend : p + (count : ℤ) ≤ r.dataEnd := by omega
      obtain ⟨hcopied, hfit⟩ := h.bytes_eq hend
      have hcount_le : (count : ℤ) ≤ rest.length := not_lt.mp fun hlt ↦ hfit (.inl hlt)
      rw [hcount] at hshort henough ⊢
      rw [Int.toNat_natCast]
      have hone := getVirtual_spec (h.advance hend) one_pos hbuffer
      have htotal : (count : ℤ) + ((n - count : ℕ) : ℤ) = n := by omega
      refine wp_mono hone ?_ ?_
      · rintro p' r' ⟨hmoved, hready, hp', hexceeds⟩
        refine wp_mono (ih (n := n - count) hready (hmoved.hasBuffer.mpr hbuffer) (by omega) (by omega)) ?_ ?_
        · rintro copied r'' ⟨hmoved', hready', hcopied', hexceeds'⟩
          refine ⟨hmoved.trans hmoved', ?_, ?_, ?_⟩
          · have hsplit : count + (n - count) = n := by omega
            rwa [List.drop_drop, hsplit, Int.sub_sub, htotal] at hready'
          · have hsplit : n = count + (n - count) := by omega
            rw [hcopied, hcopied']
            conv_rhs => rw [hsplit]
            exact List.take_add.symm
          · rintro (hlt | ⟨hmsg, hlt⟩)
            · refine hexceeds' (.inl ?_)
              rw [List.length_drop]
              omega
            · exact hexceeds' (.inr ⟨hmsg, by omega⟩)
        · rintro _ _ (hexceeds' | hsmall)
          · have hdrop := hexceeds'.of_drop
            rw [htotal] at hdrop
            exact .inl hdrop
          · exact .inr fun hroom ↦ hsmall (hmoved.hasRoom.mpr hroom)
      · rintro _ _ (hexceeds | hsmall)
        · rcases hexceeds.of_drop with hlt | ⟨hmsg, hlt⟩
          · exact .inl (.inl (by omega))
          · exact .inl (.inr ⟨hmsg, by omega⟩)
        · exact .inr hsmall
    · intro hbuffered
      have hend : p + (n : ℤ) ≤ r.dataEnd := by omega
      obtain ⟨hcopied, hexceeds⟩ := h.bytes_eq hend
      exact ⟨moved_dataPtr r _, (h.advance hend).withDataPtr _, hcopied, hexceeds⟩

theorem getBytes_spec {n : ℕ} (h : Ready cls r r.dataPtr rest left) (hbuffer : HasBuffer r) :
    wp (getBytes cls n)
      (fun copied r' ↦ Moved r r' ∧ Ready cls r' r'.dataPtr (rest.drop n) (left - n) ∧
        copied = rest.take n ∧ ¬ Exceeds cls rest left n)
      (fun _ _ ↦ Exceeds cls rest left n ∨ ¬ HasRoom cls false 1 r) r := by
  have hle := h.le_dataEnd
  simp only [getBytes, wp_bind, wp_get]
  exact copyBuffered_spec h hbuffer (Nat.succ_pos n) (by push_cast; omega)

end DxApi.Reader
