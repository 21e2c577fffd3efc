import DxApi.Reader.Loads

/-!
# What a reader takes from the stream

Whatever a reader does, the stream only gets shorter, and it gets shorter by any call that takes
bytes when none are buffered. So a run that leaves the stream as it was has read nothing.
-/

namespace DxApi.Reader

open Exec

/-- Fewer than `k` bytes of the stream were not read yet, into a buffer at the given place. -/
def Unsent (buffer : ℤ × ℤ) (k : ℕ) (r : DataReader) : Prop :=
  r.s.wire.length < k ∧ (r.bufferStart, r.bufferEnd) = buffer

/-! ## The stream does not get longer -/

section

variable {buffer : ℤ × ℤ} {k : ℕ}

theorem read_unsent (dest minSize maxSize : ℤ) : Preserves (Unsent buffer k) (read dest minSize maxSize) := by
  apply preserves_get_bind
  intro r hr
  apply Preserves.ite
  · exact preserves_throw _
  apply Preserves.ite
  · exact preserves_throw _
  apply Preserves.bind
  · apply preserves_set
    rw [Unsent, List.length_drop]
    exact ⟨Nat.lt_of_le_of_lt (Nat.sub_le _ _) hr.1, hr.2⟩
  · exact fun _ ↦ preserves_pure _

theorem makeRoom_unsent (start sizeNeeded : ℤ) : Preserves (Unsent buffer k) (makeRoom start sizeNeeded) := by
  apply preserves_get_bind
  intro r hr
  apply Preserves.ite
  · apply Preserves.bind
    · exact preserves_set hr
    · exact fun _ ↦ preserves_pure _
  apply Preserves.ite
  · apply Preserves.bind
    · exact preserves_set hr
    · exact fun _ ↦ preserves_pure _
  · exact preserves_pure _

theorem getFromStream_unsent (start sizeNeeded : ℤ) :
    Preserves (Unsent buffer k) (getFromStream start sizeNeeded) := by
  apply preserves_get_bind
  intro r _
  apply Preserves.ite
  · exact preserves_pure start
  apply (makeRoom_unsent _ _).bind
  intro room
  apply (read_unsent _ _ _).bind
  intro nBytesRead
  apply Preserves.bind
  · exact preserves_modify fun _ hr ↦ hr
  · exact fun _ ↦ preserves_pure _

theorem skipBuffers_unsent (bufferStart bufferSize : ℤ) (fuel : ℕ) (size : ℤ) :
    Preserves (Unsent buffer k) (skipBuffers bufferStart bufferSize fuel size) := by
  induction fuel generalizing size with
  | zero => exact preserves_throw _
  | succ fuel ih =>
    rw [skipBuffers]
    apply Preserves.ite
    · exact (read_unsent _ _ _).bind fun _ ↦ ih _
    · exact preserves_pure size

theorem skipStream_unsent (start size : ℤ) : Preserves (Unsent buffer k) (skipStream start size) := by
  apply preserves_get_bind
  intro r hr
  apply Preserves.ite
  · exact preserves_set hr
  apply (skipBuffers_unsent _ _ _ _).bind
  intro left
  apply (read_unsent _ _ _).bind
  exact fun _ ↦ preserves_modify fun _ hr ↦ hr

theorem readChunkHeader_unsent (isSkipping : Bool) (size remainingSize : ℤ) (fuel : ℕ)
    (start chunkHeaderLength : ℤ) :
    Preserves (Unsent buffer k) (readChunkHeader isSkipping size remainingSize fuel start chunkHeaderLength) := by
  induction fuel generalizing start chunkHeaderLength with
  | zero => exact preserves_throw _
  | succ fuel ih =>
    apply (getFromStream_unsent _ _).bind
    intro start'
    apply preserves_get_bind
    intro r _
    generalize parseChunkHeader _ = parsed
    obtain ⟨length, nextSize⟩ := parsed
    cases length with
    | some length => exact preserves_pure _
    | none =>
      apply Preserves.ite
      · exact preserves_throw _
      · exact ih _ _

theorem unwrapHeader_unsent (start remainingSize : ℤ) (chunkHeaderLength : ℕ) :
    Preserves (Unsent buffer k) (unwrapHeader start remainingSize chunkHeaderLength) := by
  intro r hr
  simp only [unwrapHeader, wp_bind, wp_get, wp_ite, wp_set, wp_pure]
  exact ⟨fun _ ↦ ⟨fun _ ↦ ⟨fun _ ↦ hr, fun _ ↦ hr⟩, fun _ ↦ hr⟩, fun _ ↦ hr⟩

theorem leaveChunk_unsent (isSkipping : Bool) (start size remainingSize : ℤ) :
    Preserves (Unsent buffer k) (leaveChunk isSkipping start size remainingSize) := by
  rw [leaveChunk]
  apply Preserves.ite
  · apply (skipStream_unsent _ _).bind
    intro _
    apply preserves_get_bind
    exact fun _ _ ↦ preserves_pure _
  · exact preserves_pure _

theorem enterChunk_unsent (isSkipping : Bool) (start size remainingSize : ℤ) :
    Preserves (Unsent buffer k) (enterChunk isSkipping start size remainingSize) := by
  apply (leaveChunk_unsent _ _ _ _).bind
  intro place
  apply preserves_get_bind
  intro r _
  apply (readChunkHeader_unsent _ _ _ _ _ _).bind
  intro header
  apply Preserves.ite
  · exact (preserves_pure _).bind fun _ ↦ preserves_pure _
  · exact (unwrapHeader_unsent _ _ _).bind fun _ ↦ preserves_pure _

theorem enterChunks_unsent (isSkipping : Bool) (fuel : ℕ) (start size remainingSize : ℤ) :
    Preserves (Unsent buffer k) (enterChunks isSkipping fuel start size remainingSize) := by
  induction fuel generalizing start size remainingSize with
  | zero => exact preserves_throw _
  | succ fuel ih =>
    apply (enterChunk_unsent _ _ _ _).bind
    intro place
    apply Preserves.ite
    · exact ih _ _ _
    · exact preserves_pure _

theorem getOrSkipInChunk_unsent (isSkipping : Bool) (start size remainingSize : ℤ) :
    Preserves (Unsent buffer k) (getOrSkipInChunk isSkipping start size remainingSize) := by
  rw [getOrSkipInChunk]
  apply Preserves.ite
  · apply (skipStream_unsent _ _).bind
    intro _
    apply preserves_get_bind
    intro r _
    apply Preserves.bind
    · exact preserves_modify fun _ hr ↦ hr
    · intro _
      apply preserves_get_bind
      exact fun _ _ ↦ preserves_pure _
  · apply (getFromStream_unsent _ _).bind
    intro start'
    apply Preserves.bind
    · exact preserves_modify fun _ hr ↦ hr
    · exact fun _ ↦ preserves_pure _

theorem getOrSkipChunked_unsent (isSkipping : Bool) (start size : ℤ) :
    Preserves (Unsent buffer k) (getOrSkipChunked isSkipping start size) := by
  apply preserves_get_bind
  intro r _
  apply Preserves.ite
  · exact getOrSkipInChunk_unsent _ _ _ _
  · apply (enterChunks_unsent _ _ _ _ _).bind
    exact fun _ ↦ getOrSkipInChunk_unsent _ _ _ _

theorem limitContent_unsent (contentEnd : ℤ) : Preserves (Unsent buffer k) (limitContent contentEnd) :=
  preserves_modify fun _ hr ↦ hr

theorem getInl_unsent (start size : ℤ) : Preserves (Unsent buffer k) (getInl start size) := by
  apply (getFromStream_unsent _ _).bind
  intro p
  apply Preserves.bind
  · exact preserves_modify fun _ hr ↦ hr
  · exact fun _ ↦ preserves_pure p

theorem skipInl_unsent (start size : ℤ) : Preserves (Unsent buffer k) (skipInl start size) := by
  apply (skipStream_unsent _ _).bind
  exact fun _ ↦ preserves_modify fun _ hr ↦ hr

theorem getWithinContent_unsent {inner : ℤ → ℤ → ReaderM ℤ}
    (hinner : ∀ start size, Preserves (Unsent buffer k) (inner start size)) (beyond : ℤ → ReadError)
    (start size : ℤ) : Preserves (Unsent buffer k) (getWithinContent inner beyond start size) := by
  apply preserves_get_bind
  intro r _
  apply Preserves.ite
  · apply (hinner _ _).bind
    intro p
    apply (limitContent_unsent _).bind
    exact fun _ ↦ preserves_pure p
  · exact preserves_throw _

theorem getVirtual_unsent (cls : ReaderClass) (start size : ℤ) :
    Preserves (Unsent buffer k) (getVirtual cls start size) := by
  cases cls with
  | base => exact getInl_unsent _ _
  | httpChunked => exact getOrSkipChunked_unsent _ _ _
  | msg => exact getWithinContent_unsent getInl_unsent _ _ _
  | msgHTTPchunked => exact getWithinContent_unsent (getOrSkipChunked_unsent false) _ _ _

theorem skipVirtual_unsent (cls : ReaderClass) (start size : ℤ) :
    Preserves (Unsent buffer k) (skipVirtual cls start size) := by
  cases cls with
  | base => exact skipInl_unsent _ _
  | httpChunked => exact (getOrSkipChunked_unsent _ _ _).bind fun _ ↦ preserves_pure _
  | msg =>
    apply preserves_get_bind
    intro r _
    apply Preserves.ite
    · apply (skipInl_unsent _ _).bind
      intro _
      apply preserves_get_bind
      exact fun _ _ ↦ limitContent_unsent _
    · exact preserves_throw _
  | msgHTTPchunked =>
    apply preserves_get_bind
    intro r _
    apply Preserves.ite
    · apply (getOrSkipChunked_unsent _ _ _).bind
      intro _
      apply preserves_get_bind
      exact fun _ _ ↦ limitContent_unsent _
    · exact preserves_throw _

theorem bytes_unsent (cls : ReaderClass) (size : ℤ) : Preserves (Unsent buffer k) (bytes cls size) := by
  apply preserves_get_bind
  intro r hr
  apply Preserves.bind
  · exact preserves_set hr
  intro _
  apply Preserves.ite
  · apply (getVirtual_unsent _ _ _).bind
    intro start
    apply Preserves.bind
    · exact preserves_modify fun _ hr ↦ hr
    · exact fun _ ↦ preserves_pure _
  · exact preserves_pure _

theorem skip_unsent (cls : ReaderClass) (size : ℤ) : Preserves (Unsent buffer k) (skip cls size) := by
  apply preserves_get_bind
  intro r hr
  apply Preserves.bind
  · exact preserves_set hr
  intro _
  apply Preserves.ite
  · exact skipVirtual_unsent _ _ _
  · exact preserves_pure _

theorem copyBuffered_unsent (cls : ReaderClass) (fuel : ℕ) (p : ℤ) (dataLength : ℕ) :
    Preserves (Unsent buffer k) (copyBuffered cls fuel p dataLength) := by
  induction fuel generalizing p dataLength with
  | zero => exact preserves_throw _
  | succ fuel ih =>
    apply preserves_get_bind
    intro r hr
    apply Preserves.ite
    · apply (getVirtual_unsent _ _ _).bind
      intro p'
      apply (ih _ _).bind
      exact fun _ ↦ preserves_pure _
    · apply Preserves.bind
      · exact preserves_set hr
      · exact fun _ ↦ preserves_pure _

theorem getBytes_unsent (cls : ReaderClass) (dataLength : ℕ) :
    Preserves (Unsent buffer k) (getBytes cls dataLength) := by
  apply preserves_get_bind
  exact fun _ _ ↦ copyBuffered_unsent _ _ _ _

theorem setMessageSize_unsent (size : ℕ) : Preserves (Unsent buffer k) (setMessageSize size) :=
  preserves_modify fun _ hr ↦ hr

theorem resetMessageSize_unsent : Preserves (Unsent buffer k) resetMessageSize :=
  preserves_modify fun _ hr ↦ hr

theorem unwindStack_unsent (depth : ℕ) : Preserves (Unsent buffer k) (unwindStack depth) := by
  induction depth with
  | zero => exact preserves_pure _
  | succ depth ih =>
    apply Preserves.bind
    · exact preserves_modify fun _ hr ↦ hr
    · exact fun _ ↦ ih

theorem nextMessage_unsent (cls : ReaderClass) : Preserves (Unsent buffer k) (nextMessage cls) := by
  have hskip : Preserves (Unsent buffer k) (skipUnreadMessageBody cls) := by
    apply preserves_get_bind
    intro r _
    apply (unwindStack_unsent _).bind
    intro _
    apply preserves_get_bind
    intro r' _
    apply resetMessageSize_unsent.bind
    exact fun _ ↦ skip_unsent _ _
  apply preserves_get_bind
  intro r _
  apply Preserves.ite
  · exact hskip.bind fun _ ↦ resetMessageSize_unsent
  · exact resetMessageSize_unsent

theorem peek_unsent (cls : ReaderClass) (size : ℤ) : Preserves (Unsent buffer k) (peek cls size) := by
  apply preserves_get_bind
  intro r hr
  apply Preserves.ite
  · apply (getVirtual_unsent _ _ _).bind
    intro start
    apply Preserves.bind
    · exact preserves_modify fun _ hr ↦ hr
    · exact fun _ ↦ preserves_pure _
  · exact preserves_pure _

theorem readCall_unsent (cls : ReaderClass) (call : ReadCall) :
    Preserves (Unsent buffer k) (call.run cls) := by
  cases call with
  | bytes n =>
    apply (bytes_unsent cls n).bind
    intro p
    exact preserves_get_bind fun _ _ ↦ preserves_pure _
  | peek n =>
    apply (peek_unsent cls n).bind
    intro p
    exact preserves_get_bind fun _ _ ↦ preserves_pure _
  | skip n => exact (skip_unsent cls n).bind fun _ ↦ preserves_pure _
  | getBytes n => exact getBytes_unsent cls n

theorem getPackedUInt22_unsent (cls : ReaderClass) : Preserves (Unsent buffer k) (getPackedUInt22 cls) := by
  apply (bytes_unsent cls 1).bind
  intro p
  apply preserves_get_bind
  intro r _
  apply Preserves.ite
  · exact preserves_pure _
  · apply (bytes_unsent cls _).bind
    intro p'
    exact preserves_get_bind fun _ _ ↦ preserves_pure _

theorem openContainer_unsent (cls : ReaderClass) (isArray : Bool) :
    Preserves (Unsent buffer k) (openContainer cls isArray) := by
  apply (getPackedUInt22_unsent cls).bind
  intro size
  apply preserves_get_bind
  intro r hr
  apply Preserves.ite
  · exact preserves_pure _
  apply Preserves.ite
  · exact preserves_throw _
  apply Preserves.bind
  · exact preserves_set hr
  · exact fun _ ↦ preserves_pure _

theorem closeContainer_unsent (cls : ReaderClass) (isArray : Bool) :
    Preserves (Unsent buffer k) (closeContainer cls isArray) := by
  apply preserves_get_bind
  intro r hr
  cases r.depth with
  | zero => exact preserves_throw _
  | succ depth =>
    apply Preserves.bind
    · exact preserves_set hr
    intro _
    apply Preserves.ite
    · exact preserves_throw _
    · apply (skip_unsent cls _).bind
      exact fun _ ↦ preserves_modify fun _ hr' ↦ hr'

theorem endOfContent_unsent : Preserves (Unsent buffer k) endOfContent :=
  preserves_get_bind fun _ _ ↦ preserves_pure _

/-- A call that is not made at the end of the content. -/
theorem unless_endOfContent {α : Type} {value : α} {program : ReaderM α}
    (h : Preserves (Unsent buffer k) program) :
    Preserves (Unsent buffer k) (do if ← endOfContent then return value else program) := by
  apply endOfContent_unsent.bind
  intro isAtEnd
  apply Preserves.ite
  · exact preserves_pure value
  · exact h

theorem readArrayStart_unsent (cls : ReaderClass) : Preserves (Unsent buffer k) (readArrayStart cls) := by
  apply unless_endOfContent
  apply (openContainer_unsent cls true).bind
  intro isOpen
  apply Preserves.ite
  · exact (getPackedUInt22_unsent cls).bind fun _ ↦ preserves_pure _
  · exact preserves_pure _

theorem readObjectStart_unsent (cls : ReaderClass) : Preserves (Unsent buffer k) (readObjectStart cls) := by
  apply unless_endOfContent
  apply (openContainer_unsent cls false).bind
  intro isOpen
  apply Preserves.ite
  · apply (bytes_unsent cls 1).bind
    intro p
    exact preserves_get_bind fun _ _ ↦ preserves_pure _
  · exact preserves_pure _

theorem skipNested_unsent (cls : ReaderClass) : Preserves (Unsent buffer k) (skipNested cls) := by
  apply unless_endOfContent
  apply (getPackedUInt22_unsent cls).bind
  intro size
  apply preserves_get_bind
  exact fun _ _ ↦ skip_unsent cls _

theorem runCalls_unsent (cls : ReaderClass) (calls : List MessageCall) :
    Preserves (Unsent buffer k) (runCalls cls calls) := by
  induction calls with
  | nil => exact preserves_pure _
  | cons call calls ih =>
    apply Preserves.bind
    · cases call with
      | read call => exact (readCall_unsent cls call).bind fun _ ↦ preserves_pure _
      | endOfContent => exact endOfContent_unsent.bind fun _ ↦ preserves_pure _
      | getPackedUInt22 => exact (getPackedUInt22_unsent cls).bind fun _ ↦ preserves_pure _
      | readArrayStart => exact (readArrayStart_unsent cls).bind fun _ ↦ preserves_pure _
      | readObjectStart => exact (readObjectStart_unsent cls).bind fun _ ↦ preserves_pure _
      | readArrayEnd => exact closeContainer_unsent cls true
      | readObjectEnd => exact closeContainer_unsent cls false
      | skipNested => exact skipNested_unsent cls
    · exact fun _ ↦ ih

/-! ## The stream gets shorter -/

variable {r : DataReader} {start size : ℤ}

theorem read_takes {dest minSize maxSize : ℤ} (hmin : 0 < minSize) (hr : Unsent buffer (k + 1) r) :
    wp (read dest minSize maxSize) (fun _ ↦ Unsent buffer k) (fun _ _ ↦ True) r := by
  simp only [read, wp_bind, wp_get, wp_ite, wp_throw, wp_set, wp_pure]
  refine ⟨fun _ ↦ trivial, fun hmax ↦ ⟨fun _ ↦ trivial, fun hwire ↦ ?_⟩⟩
  obtain ⟨hshort, hbuffer⟩ := hr
  rw [Unsent, List.length_drop]
  exact ⟨by omega, hbuffer⟩

theorem getFromStream_takes (hsize : r.streamDataEnd - start < size) (hr : Unsent buffer (k + 1) r) :
    wp (getFromStream start size) (fun _ ↦ Unsent buffer k) (fun _ _ ↦ True) r := by
  have hneeded : 0 < size - (r.streamDataEnd - start) := by omega
  rw [getFromStream, wp_bind, wp_get]
  dsimp only
  rw [if_neg (not_le.mpr hsize), wp_bind]
  apply wp_mono (makeRoom_unsent _ _ r hr)
  · intro room r₁ hr₁
    apply wp_call (read_takes hneeded hr₁)
    · exact fun _ _ hr₂ ↦ hr₂
    · exact fun _ _ _ ↦ trivial
  · exact fun _ _ _ ↦ trivial

theorem skipBuffers_left {bufferStart bufferSize : ℤ} {fuel : ℕ} (hsize : 0 < size) (hr : Unsent buffer k r) :
    wp (skipBuffers bufferStart bufferSize fuel size) (fun left r' ↦ 0 < left ∧ Unsent buffer k r')
      (fun _ _ ↦ True) r := by
  induction fuel generalizing size r with
  | zero => exact trivial
  | succ fuel ih =>
    rw [skipBuffers]
    split
    · next hlt =>
      apply wp_call (read_unsent _ _ _ r hr)
      · exact fun _ r₁ hr₁ ↦ ih (by omega) hr₁
      · exact fun _ _ _ ↦ trivial
    · exact ⟨hsize, hr⟩

theorem skipStream_takes (hsize : r.streamDataEnd - start < size) (hr : Unsent buffer (k + 1) r) :
    wp (skipStream start size) (fun _ ↦ Unsent buffer k) (fun _ _ ↦ True) r := by
  have hneeded : 0 < size - (r.streamDataEnd - start) := by omega
  rw [skipStream, wp_bind, wp_get]
  dsimp only
  rw [if_neg (not_le.mpr hsize)]
  apply wp_call (skipBuffers_left hneeded hr)
  · intro left r₁ h₁
    apply wp_call (read_takes h₁.1 h₁.2)
    · exact fun _ _ hr₂ ↦ hr₂
    · exact fun _ _ _ ↦ trivial
  · exact fun _ _ _ ↦ trivial

/-- A program that reads and then goes on in any way. -/
theorem takes_bind {α β : Type} {program : ReaderM α} {next : α → ReaderM β}
    (h : wp program (fun _ ↦ Unsent buffer k) (fun _ _ ↦ True) r) (hnext : ∀ value, Preserves (Unsent buffer k) (next value)) :
    wp (program >>= next) (fun _ ↦ Unsent buffer k) (fun _ _ ↦ True) r := by
  apply wp_call h
  · intro value r₁ hr₁
    apply wp_mono (hnext value r₁ hr₁)
    · exact fun _ _ hr₂ ↦ hr₂
    · exact fun _ _ _ ↦ trivial
  · exact fun _ _ _ ↦ trivial

/-- At the end of what is buffered. -/
theorem readChunkHeader_takes {isSkipping : Bool} {remainingSize chunkHeaderLength : ℤ} {fuel : ℕ}
    (hstart : start = r.streamDataEnd) (hsize : 0 < size) (hlength : 0 < chunkHeaderLength)
    (hr : Unsent buffer (k + 1) r) :
    wp (readChunkHeader isSkipping size remainingSize fuel start chunkHeaderLength)
      (fun _ ↦ Unsent buffer k) (fun _ _ ↦ True) r := by
  have hrequest : r.streamDataEnd - start < headerRequest isSkipping size chunkHeaderLength := by
    rw [headerRequest]
    split <;> omega
  cases fuel with
  | zero => exact trivial
  | succ fuel =>
    rw [readChunkHeader]
    apply takes_bind (getFromStream_takes hrequest hr)
    intro start'
    apply preserves_get_bind
    intro r' _
    generalize parseChunkHeader _ = parsed
    obtain ⟨length, nextSize⟩ := parsed
    cases length with
    | some length => exact preserves_pure _
    | none =>
      apply Preserves.ite
      · exact preserves_throw _
      · exact readChunkHeader_unsent _ _ _ _ _ _

/-- A skip may have read the rest of the chunk. -/
theorem leaveChunk_takes {isSkipping : Bool} {remainingSize : ℤ} (hstart : start = r.streamDataEnd)
    (hremaining : 0 ≤ remainingSize) (hsize : remainingSize < size) (hr : Unsent buffer (k + 1) r) :
    wp (leaveChunk isSkipping start size remainingSize)
      (fun place r' ↦ Unsent buffer k r' ∨ (Unsent buffer (k + 1) r' ∧ place.1 = r'.streamDataEnd ∧ 0 < place.2.1))
      (fun _ _ ↦ True) r := by
  rw [leaveChunk]
  split
  · by_cases hnone : remainingSize = 0
    · have hall : remainingSize ≤ r.streamDataEnd - start := by omega
      rw [skipStream, wp_bind, wp_bind, wp_get]
      dsimp only
      rw [if_pos hall]
      simp only [wp_set, wp_bind, wp_get, wp_pure]
      exact .inr ⟨hr, by omega, by omega⟩
    · have hmore : r.streamDataEnd - start < remainingSize := by omega
      apply wp_call (skipStream_takes hmore hr)
      · exact fun _ _ hr₁ ↦ .inl hr₁
      · exact fun _ _ _ ↦ trivial
  · exact .inr ⟨hr, hstart, by simp only; omega⟩

theorem enterChunk_takes {isSkipping : Bool} {remainingSize : ℤ} (hstart : start = r.streamDataEnd)
    (hremaining : 0 ≤ remainingSize) (hsize : remainingSize < size) (hr : Unsent buffer (k + 1) r) :
    wp (enterChunk isSkipping start size remainingSize) (fun _ ↦ Unsent buffer k) (fun _ _ ↦ True) r := by
  rw [enterChunk]
  apply wp_call (leaveChunk_takes hstart hremaining hsize hr)
  · intro place r₁ h₁
    rw [wp_bind, wp_get]
    apply takes_bind
    · rcases h₁ with hr₁ | ⟨hr₁, hplace, hleft⟩
      · apply wp_mono (readChunkHeader_unsent _ _ _ _ _ _ r₁ hr₁)
        · exact fun _ _ hr₂ ↦ hr₂
        · exact fun _ _ _ ↦ trivial
      · exact readChunkHeader_takes hplace hleft (by decide) hr₁
    · intro header
      apply Preserves.ite
      · exact (preserves_pure _).bind fun _ ↦ preserves_pure _
      · exact (unwrapHeader_unsent _ _ _).bind fun _ ↦ preserves_pure _
  · exact fun _ _ _ ↦ trivial

theorem getOrSkipChunked_takes {isSkipping : Bool} (hstart : start = r.streamDataEnd) (hsize : 0 < size)
    (hchunk : start ≤ r.chunkEnd) (hr : Unsent buffer (k + 1) r) :
    wp (getOrSkipChunked isSkipping start size) (fun _ ↦ Unsent buffer k) (fun _ _ ↦ True) r := by
  have hmore : r.streamDataEnd - start < size := by omega
  rw [getOrSkipChunked, wp_bind, wp_get]
  dsimp only
  split
  · cases isSkipping with
    | true =>
      apply takes_bind (skipStream_takes hmore hr)
      intro _
      apply preserves_get_bind
      intro r' _
      apply Preserves.bind
      · exact preserves_modify fun _ hr' ↦ hr'
      · intro _
        apply preserves_get_bind
        exact fun _ _ ↦ preserves_pure _
    | false =>
      apply takes_bind (getFromStream_takes hmore hr)
      intro start'
      apply Preserves.bind
      · exact preserves_modify fun _ hr' ↦ hr'
      · exact fun _ ↦ preserves_pure _
  · next hlt =>
    apply takes_bind
    · rw [enterChunks]
      apply takes_bind (enterChunk_takes hstart (by omega) (by omega) hr)
      intro place
      apply Preserves.ite
      · exact enterChunks_unsent _ _ _ _ _
      · exact preserves_pure _
    · exact fun _ ↦ getOrSkipInChunk_unsent _ _ _ _

theorem getInl_takes (hstart : start = r.streamDataEnd) (hsize : 0 < size) (hr : Unsent buffer (k + 1) r) :
    wp (getInl start size) (fun _ ↦ Unsent buffer k) (fun _ _ ↦ True) r := by
  apply takes_bind (getFromStream_takes (by omega) hr)
  intro p
  apply Preserves.bind
  · exact preserves_modify fun _ hr' ↦ hr'
  · exact fun _ ↦ preserves_pure p

theorem skipInl_takes (hstart : start = r.streamDataEnd) (hsize : 0 < size) (hr : Unsent buffer (k + 1) r) :
    wp (skipInl start size) (fun _ ↦ Unsent buffer k) (fun _ _ ↦ True) r := by
  apply takes_bind (skipStream_takes (by omega) hr)
  exact fun _ ↦ preserves_modify fun _ hr' ↦ hr'

theorem getWithinContent_takes {inner : ℤ → ℤ → ReaderM ℤ} {beyond : ℤ → ReadError}
    (hinner : wp (inner start size) (fun _ ↦ Unsent buffer k) (fun _ _ ↦ True) r) :
    wp (getWithinContent inner beyond start size) (fun _ ↦ Unsent buffer k) (fun _ _ ↦ True) r := by
  rw [getWithinContent, wp_bind, wp_get]
  split
  · apply takes_bind hinner
    intro p
    apply (limitContent_unsent _).bind
    exact fun _ ↦ preserves_pure p
  · exact trivial

theorem getVirtual_takes {cls : ReaderClass} (hstart : start = r.streamDataEnd) (hsize : 0 < size)
    (hchunk : cls.isChunked → start ≤ r.chunkEnd) (hr : Unsent buffer (k + 1) r) :
    wp (getVirtual cls start size) (fun _ ↦ Unsent buffer k) (fun _ _ ↦ True) r := by
  cases cls with
  | base => exact getInl_takes hstart hsize hr
  | httpChunked => exact getOrSkipChunked_takes hstart hsize (hchunk rfl) hr
  | msg => exact getWithinContent_takes (getInl_takes hstart hsize hr)
  | msgHTTPchunked => exact getWithinContent_takes (getOrSkipChunked_takes hstart hsize (hchunk rfl) hr)

theorem skipVirtual_takes {cls : ReaderClass} (hstart : start = r.streamDataEnd) (hsize : 0 < size)
    (hchunk : cls.isChunked → start ≤ r.chunkEnd) (hr : Unsent buffer (k + 1) r) :
    wp (skipVirtual cls start size) (fun _ ↦ Unsent buffer k) (fun _ _ ↦ True) r := by
  cases cls with
  | base => exact skipInl_takes hstart hsize hr
  | httpChunked =>
    apply takes_bind (getOrSkipChunked_takes hstart hsize (hchunk rfl) hr)
    exact fun _ ↦ preserves_pure _
  | msg =>
    rw [skipVirtual, skipMsg, wp_bind, wp_get]
    split
    · apply takes_bind (skipInl_takes hstart hsize hr)
      intro _
      apply preserves_get_bind
      exact fun _ _ ↦ limitContent_unsent _
    · exact trivial
  | msgHTTPchunked =>
    rw [skipVirtual, skipMsgHTTPchunked, wp_bind, wp_get]
    split
    · apply takes_bind (getOrSkipChunked_takes hstart hsize (hchunk rfl) hr)
      intro _
      apply preserves_get_bind
      exact fun _ _ ↦ limitContent_unsent _
    · exact trivial

/-- No byte is buffered that was not read. -/
structure Drained (cls : ReaderClass) (r : DataReader) : Prop where
  dataPtr_eq : r.dataPtr = r.streamDataEnd
  dataEnd_eq : r.dataEnd = r.dataPtr
  chunkEnd_le : cls.isChunked → r.dataPtr ≤ r.chunkEnd

theorem bytes_takes {cls : ReaderClass} (hdrained : Drained cls r) (hsize : 0 < size)
    (hr : Unsent buffer (k + 1) r) : wp (bytes cls size) (fun _ ↦ Unsent buffer k) (fun _ _ ↦ True) r := by
  have hbeyond : r.dataEnd < r.dataPtr + size := by
    rw [hdrained.dataEnd_eq]
    omega
  rw [bytes, wp_bind, wp_get, wp_bind, wp_set, if_pos hbeyond]
  apply takes_bind
  · exact getVirtual_takes (r := { r with dataPtr := r.dataPtr + size }) hdrained.dataPtr_eq hsize
      hdrained.chunkEnd_le hr
  · intro start'
    apply Preserves.bind
    · exact preserves_modify fun _ hr' ↦ hr'
    · exact fun _ ↦ preserves_pure _

theorem skip_takes {cls : ReaderClass} (hdrained : Drained cls r) (hsize : 0 < size)
    (hr : Unsent buffer (k + 1) r) : wp (skip cls size) (fun _ ↦ Unsent buffer k) (fun _ _ ↦ True) r := by
  have hbeyond : r.dataEnd < r.dataPtr + size := by
    rw [hdrained.dataEnd_eq]
    omega
  rw [skip, wp_bind, wp_get, wp_bind, wp_set, if_pos hbeyond]
  exact skipVirtual_takes (r := { r with dataPtr := r.dataPtr + size }) hdrained.dataPtr_eq hsize
    hdrained.chunkEnd_le hr

theorem Ready.drained {cls : ReaderClass} {rest : List UInt8} {left : ℤ}
    (h : Ready cls r r.dataPtr rest left) (hmsg : cls.isMsg) (hend : r.dataPtr = r.streamDataEnd) :
    Drained cls r := by
  have hle := h.at_rest.le_available
  obtain ⟨hcontent, hleft, -⟩ := h.contentEnd_eq hmsg
  have hdataEnd := h.dataEnd_eq
  rw [if_pos hmsg] at hdataEnd
  by_cases hcls : cls.isChunked
  · rw [available_chunked hcls] at hle hdataEnd
    exact ⟨hend, by omega, fun _ ↦ by omega⟩
  · rw [available_plain hcls] at hle hdataEnd
    exact ⟨hend, by omega, fun hchunked ↦ absurd hchunked hcls⟩

/-- What is left of a message is read, or there was nothing left of it. -/
theorem nextMessage_takes {cls : ReaderClass} {rest : List UInt8} {left : ℤ}
    (h : Ready cls r r.dataPtr rest left) (hmsg : cls.isMsg) (hend : r.dataPtr = r.streamDataEnd)
    (hr : Unsent buffer (k + 1) r) :
    wp (nextMessage cls) (fun _ r' ↦ Unsent buffer k r' ∨ (Unsent buffer (k + 1) r' ∧ Drained cls r'))
      (fun _ _ ↦ True) r := by
  have hdrained := h.drained hmsg hend
  obtain ⟨hcontent, hleft, hend0⟩ := h.contentEnd_eq hmsg
  have hlimited : r.dataEnd0 = r.dataPtr := by
    have hdataEnd := h.dataEnd_eq
    have hle := h.at_rest.le_available
    have hmost : available cls r ≤ r.streamDataEnd := by
      rw [available]
      split <;> omega
    omega
  rw [nextMessage, wp_bind, wp_get, wp_ite]
  constructor
  · intro _
    rw [wp_bind, skipUnreadMessageBody, wp_bind, wp_get, wp_bind]
    apply wp_mono (unwindStack_spec rfl)
    · intro _ _ h₁
      rw [h₁, wp_bind, wp_get, resetMessageSize, wp_bind, wp_modify]
      generalize hsize : r.contentEnd + (unwound (eOfsAt r) r.depth : ℤ) - r.dataPtr = size
      by_cases hnone : size = 0
      · rw [hnone, skip, wp_bind, wp_get, wp_bind, wp_set, wp_ite]
        refine ⟨fun hlt ↦ ?_, fun _ ↦ ?_⟩
        · dsimp only at hlt
          omega
        · rw [wp_pure, wp_modify, Int.add_zero]
          exact .inr ⟨hr, hend, hlimited, hdrained.chunkEnd_le⟩
      · have hsome : 0 < size := by omega
        have hunlimited : Drained cls { r with contentEnd := noContentLimit, dataEnd := r.dataEnd0, depth := 0 } :=
          ⟨hend, hlimited, hdrained.chunkEnd_le⟩
        apply wp_mono (skip_takes hunlimited hsome hr)
        · exact fun _ r₂ hr₂ ↦ .inl hr₂
        · exact fun _ _ _ ↦ trivial
    · exact fun _ _ ↦ False.elim
  · intro _
    rw [resetMessageSize, wp_modify]
    exact .inr ⟨hr, hend, hlimited, hdrained.chunkEnd_le⟩

end

end DxApi.Reader
