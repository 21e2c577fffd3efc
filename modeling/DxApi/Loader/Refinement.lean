import DxApi.Loader.MessageBody

/-!
# The loader writes an upload

`Refines` connects a loader with the abstract upload that it has written so far: what was handed to
the stream, and what stands in the buffer in front of the open message, are the bytes of the upload.
Each member function of the loader makes one or more moves of the upload, also when it throws.
-/

namespace DxApi.Loader

open Exec ByteMemory ByteOrder Writer Net

/-! ## The relation -/

namespace TickLoaderImpl

/-- Where the part of the buffer ends that no call takes back: an open message, with the four bytes
for its length, may still be cancelled. -/
def committedEnd (l : TickLoaderImpl) : ℤ :=
  if l.state = .messageBody then l.messageStart - 4 else l.messageWriter.dataPtr

/-- The bytes sent or buffered for sending. -/
def uploaded (l : TickLoaderImpl) : List UInt8 :=
  l.ioStream.handed ++ slice l.messageWriter.mem l.writePtr l.committedEnd

/-- The pointer is less than 4 GB into the buffer; it passes the end of the buffer only when a call
throws. -/
def Bounded (l : TickLoaderImpl) : Prop :=
  l.messageWriter.dataPtr - l.messageWriter.bufferStart < 2 ^ 32 - 1

/-- Nothing was written behind the end of the buffer. -/
def InBuffer (l : TickLoaderImpl) : Prop := l.messageWriter.dataPtr ≤ l.messageWriter.dataEnd

/-- Where the open message ends when its lengths are expanded. -/
def endPosition (l : TickLoaderImpl) : ℤ :=
  l.messageWriter.dataPtr + l.messageWriter.containerContentsExtraSize 0

/-- A message that ends at a position is flushed. -/
def Flushes (position : ℤ) (l : TickLoaderImpl) : Prop :=
  l.minChunkSize = 0 ∨ l.minChunkSize ≤ position - l.messageWriter.bufferStart

instance (position : ℤ) (l : TickLoaderImpl) : Decidable (Flushes position l) :=
  inferInstanceAs (Decidable (_ ∨ _))

/-- Where the next message or block starts once the open message has ended. -/
def positionAfterEnd (l : TickLoaderImpl) : ℤ :=
  if Flushes l.endPosition l then l.messageWriter.bufferStart else l.endPosition

/-- The open message can be ended. -/
def CanEnd (l : TickLoaderImpl) : Prop :=
  Finishable l.messageStart l.messageWriter ∧
    (Flushes l.endPosition l →
      l.ioStream.CanWrite (l.endPosition - l.messageWriter.bufferStart).toNat)

/-- The body that `finishMessage` produces of the open message. -/
def finishedBody (l : TickLoaderImpl) : List UInt8 :=
  match finishMessage l.messageStart l.messageWriter with
  | .ok messageEnd w => slice w.mem l.messageStart messageEnd
  | .error _ _ => []

/-- What no call but a registration changes. -/
structure Same (l l' : TickLoaderImpl) : Prop where
  instruments : l'.instruments = l.instruments
  interruption : l'.interruption = l.interruption
  dataEnd : l'.messageWriter.dataEnd = l.messageWriter.dataEnd
  typeIndex : l'.typeIndex = l.typeIndex
  typeIdLocal2Remote : l'.typeIdLocal2Remote = l.typeIdLocal2Remote

end TickLoaderImpl

open TickLoaderImpl

/-- The loader has written `u` after the bytes of the request that opened the upload. -/
structure Refines (request : List UInt8) (l : TickLoaderImpl) (u : Upload) : Prop where
  writing : l.state.isWriting = true
  block : l.state.isWritingMessage = u.current.isSome
  writePtr : l.writePtr = l.messageWriter.bufferStart
  base : l.messageWriter.bufferStart ≤ l.committedEnd
  uploaded : l.uploaded = request ++ u.encode
  message : l.state = .messageBody → MessageOpen l.messageStart l.messageWriter
  connected : l.connected = true
  outputClosed : l.ioStream.outputClosed = false
  interruption : l.interruption.atMostStopping = true
  dataEnd : l.messageWriter.dataEnd = l.messageWriter.bufferStart + (maxMessageSize + 56 : ℕ)

variable {request : List UInt8} {l l' : TickLoaderImpl} {u : Upload}

theorem TickLoaderImpl.Same.refl (l : TickLoaderImpl) : Same l l := ⟨rfl, rfl, rfl, rfl, rfl⟩

theorem TickLoaderImpl.Same.trans {l l' l'' : TickLoaderImpl} (h : Same l l') (h' : Same l' l'') :
    Same l l'' :=
  ⟨h'.instruments.trans h.instruments, h'.interruption.trans h.interruption,
    h'.dataEnd.trans h.dataEnd, h'.typeIndex.trans h.typeIndex,
    h'.typeIdLocal2Remote.trans h.typeIdLocal2Remote⟩

theorem Refines.bounded (h : Refines request l u) (hl : InBuffer l) : Bounded l := by
  have hend := h.dataEnd
  unfold InBuffer at hl
  unfold Bounded
  unfold maxMessageSize at hend
  omega

theorem Opened.refines (h : Opened l) : Refines l.ioStream.handed l Upload.empty := by
  have hnotBody : l.state ≠ .messageBody := by
    rw [h.state]
    exact State.noConfusion
  have hend : l.committedEnd = l.messageWriter.bufferStart := by
    rw [committedEnd, if_neg hnotBody, h.dataPtr]
  refine ⟨?_, ?_, h.writePtr, hend.ge, ?_, fun hbody ↦ absurd hbody hnotBody, h.connected,
    h.outputClosed, ?_, h.dataEnd⟩
  · rw [h.state]
    rfl
  · rw [h.state]
    rfl
  · rw [TickLoaderImpl.uploaded, h.writePtr, hend, slice_self]
    rfl
  · rw [h.interruption]
    rfl

/-- A call on the writer of the open message leaves the upload as it is. -/
theorem Refines.inMessage (h : Refines request l u) (hstate : l.state = .messageBody)
    (hin : InMessage l.messageStart l.messageWriter l'.messageWriter)
    (hrest : l' = { l with messageWriter := l'.messageWriter }) : Refines request l' u := by
  have hstate' : l'.state = .messageBody := by
    rw [hrest]
    exact hstate
  have hstart : l'.messageStart = l.messageStart := by rw [hrest]
  have hpointer : l'.writePtr = l.writePtr := by rw [hrest]
  have hstream : l'.ioStream = l.ioStream := by rw [hrest]
  have hbase := h.base
  have huploaded := h.uploaded
  rw [committedEnd, if_pos hstate] at hbase
  rw [TickLoaderImpl.uploaded, committedEnd, if_pos hstate] at huploaded
  refine ⟨?_, ?_, ?_, ?_, ?_, ?_, ?_, ?_, ?_, ?_⟩
  · rw [hstate']
    rfl
  · rw [hstate', ← hstate]
    exact h.block
  · rw [hpointer, hin.bufferStart]
    exact h.writePtr
  · rw [committedEnd, if_pos hstate', hstart, hin.bufferStart]
    exact hbase
  · rw [TickLoaderImpl.uploaded, committedEnd, if_pos hstate', hstart, hpointer, hstream, ← huploaded]
    congr 1
    exact slice_congr fun address _ hlt ↦ hin.before address (by omega)
  · intro _
    rw [hstart]
    exact hin.message
  · rw [hrest]
    exact h.connected
  · rw [hstream]
    exact h.outputClosed
  · rw [hrest]
    exact h.interruption
  · rw [hin.dataEnd, hin.bufferStart]
    exact h.dataEnd

/-! ## Flushing -/

/-- The buffer was handed to the stream. -/
structure Flushed (l l' : TickLoaderImpl) : Prop where
  handed : l'.ioStream.handed =
    l.ioStream.handed ++ slice l.messageWriter.mem l.writePtr l.messageWriter.dataPtr
  outputClosed : l'.ioStream.outputClosed = l.ioStream.outputClosed
  canWrite : l.ioStream.CanWrite (l.messageWriter.dataPtr - l.writePtr).toNat
  rest : l' = { l with
    ioStream := l'.ioStream
    messageWriter := { l.messageWriter with dataPtr := l.messageWriter.bufferStart }
    writePtr := l.messageWriter.bufferStart }

/-- The stream did not take the buffer. -/
structure NotFlushed (l l' : TickLoaderImpl) : Prop where
  handed : l'.ioStream.handed = l.ioStream.handed
  outputClosed : l'.ioStream.outputClosed = l.ioStream.outputClosed
  cannot : ¬ l.ioStream.CanWrite (l.messageWriter.dataPtr - l.writePtr).toNat
  rest : l' = { l with ioStream := l'.ioStream }

theorem flushOutput_spec (hconnected : l.connected = true)
    (hinterruption : l.interruption.atMostStopping = true) :
    wp flushOutput (fun _ l' ↦ Flushed l l') (fun _ l' ↦ NotFlushed l l') l := by
  simp only [flushOutput, transmitBuffer, resetPointers, onStream, wp_bind, wp_get, wp_ite, wp_pure,
    wp_modify, wp_zoom]
  refine ⟨fun _ ↦ ⟨fun _ ↦ ?_, fun hnot ↦ absurd hconnected hnot⟩,
    fun hnot ↦ absurd hinterruption hnot⟩
  apply wp_mono (IOStreamTCP.write_spec _ _)
  · intro result s' hs'
    have hcan := hs'.canWrite
    rw [length_slice] at hcan
    exact ⟨IOStreamTCP.handed_of_written hs', hs'.outputClosed, hcan, rfl⟩
  · rintro error s' ⟨hwrites, hclosed, hcannot⟩
    rw [length_slice] at hcannot
    exact ⟨IOStreamTCP.handed_congr hwrites, hclosed, hcannot, rfl⟩

/-! ## Ending a message -/

/-- The record of a message is complete in the buffer: its length stands in front of it. -/
structure Completed (body : Body) (l l' : TickLoaderImpl) : Prop where
  mem : slice l'.messageWriter.mem l.messageWriter.bufferStart l.endPosition =
    slice l.messageWriter.mem l.messageWriter.bufferStart (l.messageStart - 4) ++ body.encode
  before : ∀ address < l.messageStart - 4,
    l'.messageWriter.mem address = l.messageWriter.mem address
  dataPtr : l'.messageWriter.dataPtr = l.endPosition
  message : MessageOpen l.messageStart l'.messageWriter
  bufferStart : l'.messageWriter.bufferStart = l.messageWriter.bufferStart
  dataEnd : l'.messageWriter.dataEnd = l.messageWriter.dataEnd
  rest : l' = { l with messageWriter := l'.messageWriter, nMsgWritten := l.nMsgWritten + 1 }

theorem completeMessage_spec (hopen : MessageOpen l.messageStart l.messageWriter)
    (hend : l.messageWriter.dataEnd = l.messageWriter.bufferStart + (maxMessageSize + 56 : ℕ))
    (hbounded : Bounded l) :
    wp completeMessage
      (fun dataPtr l' ↦ dataPtr = l.endPosition ∧
        Finishable l.messageStart l.messageWriter ∧
        ∃ body : Body, body.val = l.finishedBody ∧ Completed body l l' ∧ (InBuffer l → InBuffer l'))
      (fun _ l' ↦ ¬ Finishable l.messageStart l.messageWriter ∧
        (Balanced l.messageWriter → InMessage l.messageStart l.messageWriter l'.messageWriter ∧
          l' = { l with messageWriter := l'.messageWriter })) l := by
  have hfinish := finishMessage_kept hopen
  unfold Bounded at hbounded
  unfold maxMessageSize at hend
  unfold completeMessage onWriter
  rw [wp_bind, wp_get, wp_bind, wp_zoom]
  unfold finishedBody endPosition
  cases hrun : finishMessage l.messageStart l.messageWriter with
  | error error w' =>
    rw [wp_error hrun] at hfinish ⊢
    exact ⟨hfinish.1, fun hbalanced ↦ ⟨hfinish.2 hbalanced, rfl⟩⟩
  | ok messageEnd w' =>
    rw [wp_ok hrun] at hfinish ⊢
    obtain ⟨hin, hptr, hmessageEnd, hfits, hfinishable⟩ := hfinish
    rw [wp_bind, wp_modify, wp_pure]
    have hstart := hopen.start
    have hlast := hin.message.dataPtr
    rw [hptr] at hlast
    have hsize : messageEnd - l.messageStart < 2 ^ 32 - 1 := by
      cases hfits with
      | inl hnone =>
        rw [hnone] at hmessageEnd
        omega
      | inr hle => omega
    have hlength : (slice w'.mem l.messageStart messageEnd).length =
        ((messageEnd - l.messageStart) % 2 ^ 32).toNat := by
      rw [length_slice]
      omega
    have hshort : (slice w'.mem l.messageStart messageEnd).length < messageBlockTerminatorRecord := by
      rw [length_slice]
      unfold messageBlockTerminatorRecord
      omega
    generalize hdata : bigEndian 4 ((messageEnd - l.messageStart) % 2 ^ 32).toNat = header
    have hheader : header.length = 4 := by rw [← hdata, length_bigEndian]
    refine ⟨hmessageEnd, hfinishable, ⟨_, hshort⟩, rfl, ⟨?_, ?_, ?_, ?_, ?_, ?_, rfl⟩, ?_⟩
    · change slice (store w'.mem (l.messageStart - 4) header) l.messageWriter.bufferStart
        (l.messageWriter.dataPtr + _) = _
      have hfront : slice (store w'.mem (l.messageStart - 4) header) l.messageWriter.bufferStart
          (l.messageStart - 4) =
          slice l.messageWriter.mem l.messageWriter.bufferStart (l.messageStart - 4) := by
        rw [slice_store_before le_rfl]
        exact slice_congr fun address _ hlt ↦ hin.before address (by omega)
      have hmiddle : slice (store w'.mem (l.messageStart - 4) header) (l.messageStart - 4)
          l.messageStart = header := by
        have hstored := slice_store w'.mem (l.messageStart - 4) header
        rw [hheader] at hstored
        have hfour : l.messageStart - 4 + ((4 : ℕ) : ℤ) = l.messageStart := by omega
        rwa [hfour] at hstored
      have hback : slice (store w'.mem (l.messageStart - 4) header) l.messageStart messageEnd =
          slice w'.mem l.messageStart messageEnd :=
        slice_store_after (by rw [hheader]; omega)
      rw [← hmessageEnd, slice_append _ l.messageStart (by omega) hlast, hback,
        slice_append (store w'.mem _ header) (l.messageStart - 4) (by omega) (by omega), hfront,
        hmiddle, Body.encode, hlength, hdata, List.append_assoc]
    · intro address hlt
      exact (store_of_lt hlt).trans (hin.before address (by omega))
    · exact hptr.trans hmessageEnd
    · exact ⟨hin.message.start, hin.message.dataPtr, hin.message.header, hin.message.points,
        hin.message.room⟩
    · exact hin.bufferStart
    · exact hin.dataEnd
    · intro hl
      change w'.dataPtr ≤ w'.dataEnd
      rw [hptr, hin.dataEnd]
      cases hfits with
      | inl hnone =>
        rw [hnone] at hmessageEnd
        unfold InBuffer at hl
        omega
      | inr hle => exact hle

theorem flushIfNeeded_spec (position : ℤ) (hconnected : l.connected = true)
    (hinterruption : l.interruption.atMostStopping = true) :
    wp (flushIfNeeded position)
      (fun _ l' ↦ if Flushes position l then Flushed l l' else l' = l)
      (fun _ l' ↦ Flushes position l ∧ NotFlushed l l') l := by
  have hflush := flushOutput_spec hconnected hinterruption
  unfold flushIfNeeded
  rw [wp_bind, wp_get]
  by_cases hzero : l.minChunkSize = 0
  · have hflushes : Flushes position l := Or.inl hzero
    rw [if_pos hzero]
    simp only [if_pos hflushes]
    apply wp_mono hflush
    · exact fun _ _ h ↦ h
    · exact fun _ _ h ↦ ⟨hflushes, h⟩
  · rw [if_neg hzero]
    by_cases hfull : l.minChunkSize ≤ position - l.messageWriter.bufferStart
    · have hflushes : Flushes position l := Or.inr hfull
      rw [if_pos hfull]
      simp only [if_pos hflushes]
      apply wp_mono hflush
      · exact fun _ _ h ↦ h
      · exact fun _ _ h ↦ ⟨hflushes, h⟩
    · have hkept : ¬ Flushes position l := fun h ↦ h.elim hzero hfull
      rw [if_neg hfull]
      simp only [if_neg hkept]
      exact rfl

theorem Refines.current (h : Refines request l u) (hstate : l.state.isWritingMessage = true) :
    ∃ bodies, u.current = some bodies := by
  have hblock := h.block
  rw [hstate] at hblock
  exact Option.isSome_iff_exists.mp hblock.symm

theorem Refines.no_current (h : Refines request l u) (hstate : l.state = .notInMessageBlock) :
    u.current = none := by
  have hblock := h.block
  rw [hstate] at hblock
  cases hcurrent : u.current with
  | none => rfl
  | some bodies =>
    rw [hcurrent] at hblock
    cases hblock

/-- The bytes of the upload once the open message is complete. -/
theorem Completed.uploaded {body : Body} (hbody : Completed body l l') (h : Refines request l u)
    (hstate : l.state = .messageBody) :
    l'.ioStream.handed ++ slice l'.messageWriter.mem l'.writePtr l'.messageWriter.dataPtr =
      request ++ (u.putMessage body).encode := by
  have hwriting : l.state.isWritingMessage = true := by rw [hstate]; rfl
  obtain ⟨bodies, hcurrent⟩ := h.current hwriting
  have hold := h.uploaded
  rw [TickLoaderImpl.uploaded, committedEnd, if_pos hstate, h.writePtr] at hold
  have hstream : l'.ioStream = l.ioStream := by rw [hbody.rest]
  have hwritePtr : l'.writePtr = l.messageWriter.bufferStart := by
    rw [hbody.rest]
    exact h.writePtr
  rw [hstream, hwritePtr, hbody.dataPtr, hbody.mem, ← List.append_assoc, hold,
    Upload.encode_putMessage hcurrent, List.append_assoc]

theorem Completed.flushed {body : Body} {last : TickLoaderImpl} (hbody : Completed body l l')
    (h : Refines request l u) (hstate : l.state = .messageBody) (hflushed : Flushed l' last) :
    Refines request { last with state := .messageStart } (u.putMessage body) := by
  have htext := hbody.uploaded h hstate
  have hrest := hflushed.rest
  have hnotBody : ¬ State.messageStart = State.messageBody := State.noConfusion
  have hstart : last.messageWriter.dataPtr = last.messageWriter.bufferStart := by rw [hrest]
  have hpointer : last.writePtr = last.messageWriter.bufferStart := by rw [hrest]
  have hkept := hbody.rest
  refine ⟨rfl, rfl, hpointer, ?_, ?_, fun hfalse ↦ absurd hfalse hnotBody, ?_, ?_, ?_, ?_⟩
  · rw [committedEnd, if_neg hnotBody]
    exact hstart.ge
  · rw [TickLoaderImpl.uploaded, committedEnd, if_neg hnotBody]
    change last.ioStream.handed ++ slice last.messageWriter.mem last.writePtr
      last.messageWriter.dataPtr = _
    rw [hstart, hpointer, slice_self, List.append_nil, hflushed.handed, htext]
  · change last.connected = true
    rw [hrest, hkept]
    exact h.connected
  · change last.ioStream.outputClosed = false
    rw [hflushed.outputClosed, hkept]
    exact h.outputClosed
  · change last.interruption.atMostStopping = true
    rw [hrest, hkept]
    exact h.interruption
  · change last.messageWriter.dataEnd = last.messageWriter.bufferStart + _
    have hend : last.messageWriter.dataEnd = l'.messageWriter.dataEnd := by rw [hrest]
    have hbase : last.messageWriter.bufferStart = l'.messageWriter.bufferStart := by rw [hrest]
    rw [hend, hbase, hbody.dataEnd, hbody.bufferStart]
    exact h.dataEnd

theorem Completed.kept {body : Body} (hbody : Completed body l l') (h : Refines request l u)
    (hstate : l.state = .messageBody) :
    Refines request { l' with state := .messageStart } (u.putMessage body) := by
  have htext := hbody.uploaded h hstate
  have hnotBody : ¬ State.messageStart = State.messageBody := State.noConfusion
  have hkept := hbody.rest
  have hopen := hbody.message
  have hstart := hopen.start
  have hptr := hopen.dataPtr
  refine ⟨rfl, rfl, ?_, ?_, ?_, fun hfalse ↦ absurd hfalse hnotBody, ?_, ?_, ?_, ?_⟩
  · change l'.writePtr = l'.messageWriter.bufferStart
    rw [hbody.bufferStart, hkept]
    exact h.writePtr
  · rw [committedEnd, if_neg hnotBody]
    change l'.messageWriter.bufferStart ≤ l'.messageWriter.dataPtr
    omega
  · rw [TickLoaderImpl.uploaded, committedEnd, if_neg hnotBody]
    exact htext
  · change l'.connected = true
    rw [hkept]
    exact h.connected
  · change l'.ioStream.outputClosed = false
    rw [hkept]
    exact h.outputClosed
  · change l'.interruption.atMostStopping = true
    rw [hkept]
    exact h.interruption
  · change l'.messageWriter.dataEnd = l'.messageWriter.bufferStart + _
    rw [hbody.dataEnd, hbody.bufferStart]
    exact h.dataEnd

/-- The record is complete, but the stream did not take the buffer: the message is still open. -/
theorem Completed.notFlushed {body : Body} {last : TickLoaderImpl} (hbody : Completed body l l')
    (h : Refines request l u) (hstate : l.state = .messageBody) (hnot : NotFlushed l' last) :
    Refines request last u := by
  have hkept := hbody.rest
  have hrest := hnot.rest
  have hlastState : last.state = .messageBody := by
    rw [hrest, hkept]
    exact hstate
  have hstartLast : last.messageStart = l.messageStart := by rw [hrest, hkept]
  have hwriter : last.messageWriter = l'.messageWriter := by rw [hrest]
  have hopen := hbody.message
  refine ⟨?_, ?_, ?_, ?_, ?_, ?_, ?_, ?_, ?_, ?_⟩
  · rw [hlastState]
    rfl
  · rw [hlastState, ← hstate]
    exact h.block
  · rw [hwriter, hbody.bufferStart, hrest, hkept]
    exact h.writePtr
  · rw [committedEnd, if_pos hlastState, hstartLast, hwriter]
    have hstart := hopen.start
    omega
  · have hold := h.uploaded
    have hpointer : last.writePtr = l.writePtr := by rw [hrest, hkept]
    have hstream : last.ioStream.handed = l.ioStream.handed := by rw [hnot.handed, hkept]
    rw [TickLoaderImpl.uploaded, committedEnd, if_pos hstate] at hold
    rw [TickLoaderImpl.uploaded, committedEnd, if_pos hlastState, hstartLast, hwriter, hpointer, hstream,
      ← hold]
    congr 1
    exact slice_congr fun address _ hlt ↦ hbody.before address hlt
  · intro _
    rw [hstartLast, hwriter]
    exact hopen
  · rw [hrest, hkept]
    exact h.connected
  · rw [hnot.outputClosed, hkept]
    exact h.outputClosed
  · rw [hrest, hkept]
    exact h.interruption
  · rw [hwriter, hbody.dataEnd, hbody.bufferStart]
    exact h.dataEnd

/-- `endMessage`: the open message becomes a message of the upload. When it throws, the message is
still open and the upload is as before. -/
theorem endMessage_spec (h : Refines request l u) (hstate : l.state = .messageBody)
    (hbounded : Bounded l) :
    wp endMessage
      (fun _ l' ↦ CanEnd l ∧ ∃ body : Body, body.val = l.finishedBody ∧
        Refines request l' (u.putMessage body) ∧ l'.state = .messageStart ∧ Same l l' ∧ l'.messageWriter.dataPtr = l.positionAfterEnd ∧
        (InBuffer l → InBuffer l'))
      (fun _ l' ↦ ¬ CanEnd l ∧
        (Balanced l.messageWriter → Refines request l' u ∧ l'.state = .messageBody ∧ Same l l')) l := by
  rw [endMessage, wp_bind]
  apply wp_mono (completeMessage_spec (h.message hstate) h.dataEnd hbounded)
  · rintro dataPtr first ⟨hposition, hfinishable, body, hbody, hcompleted, hin⟩
    have hkept := hcompleted.rest
    have hconnected : first.connected = true := by
      rw [hkept]
      exact h.connected
    have hinterruption : first.interruption.atMostStopping = true := by
      rw [hkept]
      exact h.interruption
    have hsame : Same l first := by
      refine ⟨?_, ?_, hcompleted.dataEnd, ?_, ?_⟩ <;> rw [hkept]
    have hflushes : Flushes dataPtr first ↔ Flushes l.endPosition l := by
      unfold Flushes
      rw [hposition, hcompleted.bufferStart, hkept]
    have hwrite : first.ioStream.CanWrite (first.messageWriter.dataPtr - first.writePtr).toNat ↔
        l.ioStream.CanWrite (l.endPosition - l.messageWriter.bufferStart).toNat := by
      have hpointer : first.writePtr = l.messageWriter.bufferStart := by
        rw [hkept]
        exact h.writePtr
      have hstream : first.ioStream = l.ioStream := by rw [hkept]
      rw [hcompleted.dataPtr, hpointer, hstream]
    rw [wp_bind]
    apply wp_mono (flushIfNeeded_spec dataPtr hconnected hinterruption)
    · rintro - last hlast
      rw [setState, wp_modify]
      by_cases hfull : Flushes dataPtr first
      · rw [if_pos hfull] at hlast
        have hrest := hlast.rest
        refine ⟨⟨hfinishable, fun _ ↦ hwrite.mp hlast.canWrite⟩, body, hbody,
          hcompleted.flushed h hstate hlast, rfl, ?_, ?_, fun _ ↦ ?_⟩
        · refine hsame.trans ?_
          rw [hrest]
          exact ⟨rfl, rfl, rfl, rfl, rfl⟩
        · rw [positionAfterEnd, if_pos (hflushes.mp hfull), ← hcompleted.bufferStart]
          change last.messageWriter.dataPtr = _
          rw [hrest]
        · have hend : last.messageWriter.dataEnd = l.messageWriter.dataEnd := by
            rw [hrest]
            exact hcompleted.dataEnd
          have hptr : last.messageWriter.dataPtr = l.messageWriter.bufferStart := by
            rw [hrest]
            exact hcompleted.bufferStart
          have hbuffer := h.dataEnd
          change last.messageWriter.dataPtr ≤ last.messageWriter.dataEnd
          omega
      · rw [if_neg hfull] at hlast
        rw [hlast]
        have hnotFull : ¬ Flushes l.endPosition l := fun hfull' ↦ hfull (hflushes.mpr hfull')
        refine ⟨⟨hfinishable, fun hfull' ↦ absurd hfull' hnotFull⟩, body, hbody,
          hcompleted.kept h hstate, rfl, hsame.trans ⟨rfl, rfl, rfl, rfl, rfl⟩, ?_,
          hin⟩
        rw [positionAfterEnd, if_neg hnotFull]
        exact hcompleted.dataPtr
    · rintro error last ⟨hfull, hnot⟩
      have hrest := hnot.rest
      refine ⟨?_, fun _ ↦ ⟨hcompleted.notFlushed h hstate hnot, ?_, ?_⟩⟩
      · rintro ⟨-, hcan⟩
        exact hnot.cannot (hwrite.mpr (hcan (hflushes.mp hfull)))
      · rw [hrest, hkept]
        exact hstate
      · refine hsame.trans ?_
        rw [hrest]
        exact ⟨rfl, rfl, rfl, rfl, rfl⟩
  · rintro error last ⟨hnot, hbalanced⟩
    refine ⟨fun hcan ↦ hnot hcan.1, fun hb ↦ ?_⟩
    obtain ⟨hin, hrest⟩ := hbalanced hb
    refine ⟨h.inMessage hstate hin hrest, ?_, ?_⟩
    · rw [hrest]
      exact hstate
    · refine ⟨?_, ?_, hin.dataEnd, ?_, ?_⟩ <;> rw [hrest]

end DxApi.Loader
