import DxApi.Loader.Numbering

/-!
# Whole uploads

What a client hands to the server with calls that all return and a final `finish`: the blocks of an
upload, whose messages are those that the calls ended, and then the terminator. A message that is
still open at the end is taken back.
-/

namespace DxApi.Loader

open Exec ByteMemory ByteOrder Writer Net TickLoaderImpl

variable {request : List UInt8} {l l' : TickLoaderImpl} {u u' : Upload}

/-! ## Runs without exceptions -/

/-- The calls of a client, and `finish`. -/
def upload (calls : List Call) : LoaderM Unit := do
  calls.forM Call.exec
  finish

/-- The messages that the calls end, in order. -/
def committedOver : List Call → TickLoaderImpl → List (List UInt8)
  | [], _ => []
  | call :: calls, l => call.committed l ++ committedOver calls (finalState call.exec l)

/-- Fields are written while a message is open only. -/
def OrderedRun : List Call → TickLoaderImpl → Prop
  | [], _ => True
  | call :: calls, l => call.InOrder l ∧ OrderedRun calls (finalState call.exec l)

/-- A loader that has written the upload `u` within its buffer. -/
structure Uploading (request : List UInt8) (l : TickLoaderImpl) (u : Upload) : Prop where
  refines : Refines request l u
  symbols : u.symbols = l.instruments
  working : l.interruption = .working
  inBuffer : InBuffer l

theorem Opened.uploading (h : Opened l) : Uploading l.ioStream.handed l Upload.empty := by
  have hsymbols : Upload.empty.symbols = l.instruments := by
    rw [h.instruments]
    rfl
  refine ⟨h.refines, hsymbols, h.interruption, ?_⟩
  have hptr := h.dataPtr
  have hend := h.dataEnd
  unfold InBuffer
  omega

/-- One call, if it returns. -/
theorem Uploading.step (h : Uploading request l u) {call : Call} (horder : call.InOrder l) :
    wp call.exec
      (fun _ l' ↦ l' = finalState call.exec l ∧
        ∃ u', Uploading request l' u' ∧ u'.messages = u.messages ++ call.committed l)
      (fun _ _ ↦ True) l := by
  have hbounded : l.state = .messageBody → Bounded l := fun _ ↦ h.refines.bounded h.inBuffer
  have hspec := Call.exec_spec h.refines h.working hbounded call horder
  apply wp_mono (wp_and wp_finalState hspec)
  · rintro - l' ⟨hfinal, u', hadvanced, hin⟩
    exact ⟨hfinal, u', ⟨hadvanced.refines, hadvanced.numbered h.symbols,
      hadvanced.interruption.trans h.working, hin h.inBuffer⟩, hadvanced.messages⟩
  · exact fun _ _ _ ↦ trivial

/-- All calls, if they return. -/
theorem Uploading.run (h : Uploading request l u) {calls : List Call} (horder : OrderedRun calls l) :
    wp (calls.forM Call.exec)
      (fun _ l' ↦ l' = runAll calls l ∧
        ∃ u', Uploading request l' u' ∧ u'.messages = u.messages ++ committedOver calls l)
      (fun _ _ ↦ True) l := by
  induction calls generalizing l u with
  | nil => exact ⟨rfl, u, h, (List.append_nil _).symm⟩
  | cons call calls ih =>
    obtain ⟨hfirst, hrest⟩ := horder
    rw [List.forM_eq_forM, List.forM_cons, wp_bind]
    apply wp_mono (h.step hfirst)
    · rintro - middle ⟨hmiddle, u', huploading, hmessages⟩
      rw [← hmiddle] at hrest
      apply wp_mono (ih huploading hrest)
      · rintro - last ⟨hlast, u'', huploading', hmessages'⟩
        refine ⟨?_, u'', huploading', ?_⟩
        · rw [hlast, hmiddle]
          rfl
        · rw [hmessages', hmessages, committedOver, hmiddle, List.append_assoc]
      · exact fun _ _ _ ↦ trivial
    · exact fun _ _ _ ↦ trivial

/-! ## Finishing -/

/-- The second half of `endWriting` and the last flush: the terminator alone is in the buffer. -/
theorem sendTerminator_spec (h : Refines request l u) (hstate : l.state = .notInMessageBlock) :
    wp (do
        flushOutput
        onWriter (putByte terminatorBlockId)
        setState .finishedWriting
        flushOutput)
      (fun _ l' ↦ l'.ioStream.handed = request ++ (u.encode ++ [terminatorBlockId]))
      (fun _ _ ↦ True) l := by
  have hnotBody : l.state ≠ .messageBody := by
    rw [hstate]
    exact State.noConfusion
  rw [wp_bind]
  apply wp_mono (flushOutput_spec h.connected h.interruption)
  · intro _ empty hempty
    have hrefines := hempty.refines h hnotBody
    have hrest := hempty.rest
    have hnotBody' : empty.state ≠ .messageBody := by
      rw [hrest]
      exact hnotBody
    have hptr : empty.messageWriter.dataPtr = empty.writePtr := by rw [hrest]
    have hhanded : empty.ioStream.handed = request ++ u.encode := by
      have huploaded := hrefines.uploaded
      rw [TickLoaderImpl.uploaded, committedEnd, if_neg hnotBody', hptr, slice_self,
        List.append_nil] at huploaded
      exact huploaded
    rw [wp_bind, onWriter, wp_zoom]
    apply wp_mono (putBE_appended [terminatorBlockId] empty.messageWriter)
    · rintro - w' ⟨hw', -⟩
      have hflush := flushOutput_spec
        (l := { empty with messageWriter := w', state := .finishedWriting })
        hrefines.connected hrefines.interruption
      rw [wp_bind, setState, wp_modify]
      apply wp_mono hflush
      · intro _ last hlast
        rw [hlast.handed]
        change empty.ioStream.handed ++ slice w'.mem empty.writePtr w'.dataPtr = _
        rw [hhanded, ← hptr, hw'.data, List.append_assoc]
      · exact fun _ _ _ ↦ trivial
    · exact fun _ _ _ ↦ trivial
  · exact fun _ _ _ ↦ trivial

theorem cancelOpenMessage_spec (h : Refines request l u) :
    wp cancelOpenMessage (fun _ l' ↦ Moved request [] l l' u u ∧ l'.state ≠ .messageBody)
      (fun _ _ ↦ False) l := by
  unfold cancelOpenMessage
  rw [wp_bind, wp_get]
  by_cases hbody : l.state = .messageBody
  · rw [if_pos hbody]
    apply wp_mono (cancelMessage_spec h hbody)
    · rintro - l' ⟨hmoved, hstate, -⟩
      refine ⟨hmoved, ?_⟩
      rw [hstate]
      exact State.noConfusion
    · exact fun _ _ hfalse ↦ hfalse
  · rw [if_neg hbody, wp_pure]
    exact ⟨⟨h, rfl, (List.append_nil _).symm, Same.refl l⟩, hbody⟩

/-- All that was handed to the stream after the request are the blocks of the upload and the
terminator. -/
def Finished (request : List UInt8) (u : Upload) (l' : TickLoaderImpl) : Prop :=
  ∃ blocks : List Block, blocks.flatMap Block.symbols = u.symbols ∧
    blocks.flatMap Block.messageBodies = u.messages ∧
    l'.ioStream.handed = request ++ (blocks.flatMap Block.encode ++ [terminatorBlockId])

theorem endWriting_flushOutput :
    (do endWriting; flushOutput) = (do
      endMessageBlockIfNeeded
      flushOutput
      onWriter (putByte terminatorBlockId)
      setState .finishedWriting
      flushOutput : LoaderM Unit) := by
  simp only [endWriting, bind_assoc]

theorem closeOutput_spec (h : Refines request l u) (hstate : l.state ≠ .messageBody) :
    wp closeOutput (fun _ l' ↦ Finished request u l') (fun _ _ ↦ True) l := by
  have hended : l.endedBody = [] := if_neg hstate
  have hwritten : wp (do endWriting; flushOutput) (fun _ l' ↦ Finished request u l')
      (fun _ _ ↦ True) l := by
    rw [endWriting_flushOutput, wp_bind]
    apply wp_mono (endMessageBlockIfNeeded_spec h fun hbody ↦ absurd hbody hstate)
    · rintro - outside ⟨u', hmoved, houtside, -⟩
      have hcurrent := hmoved.refines.no_current houtside
      have hmessages := hmoved.messages
      rw [hended, List.append_nil, Upload.messages, hcurrent] at hmessages
      apply wp_mono (sendTerminator_spec hmoved.refines houtside)
      · intro _ last hlast
        refine ⟨u'.blocks, hmoved.symbols, ?_, ?_⟩
        · simpa using hmessages
        · rw [hlast, Upload.encode, hcurrent, List.append_nil]
      · exact fun _ _ _ ↦ trivial
    · exact fun _ _ _ ↦ trivial
  unfold closeOutput
  rw [wp_bind, wp_get, if_pos ⟨h.connected, h.outputClosed⟩, ← bind_assoc, wp_bind]
  apply wp_mono hwritten
  · exact fun _ _ hfinished ↦ hfinished
  · exact fun _ _ _ ↦ trivial

theorem finishWriting_spec (h : Refines request l u) :
    wp finishWriting (fun _ l' ↦ Finished request u l') (fun _ _ ↦ True) l := by
  have hstopping : Refines request { l with interruption := .stopping } u :=
    ⟨h.writing, h.block, h.writePtr, h.base, h.uploaded, h.message, h.connected, h.outputClosed, rfl,
      h.dataEnd⟩
  unfold finishWriting
  rw [wp_bind, wp_modify, wp_bind]
  apply wp_mono (cancelOpenMessage_spec hstopping)
  · rintro - cancelled ⟨hmoved, hstate⟩
    rw [wp_bind]
    apply wp_mono (closeOutput_spec hmoved.refines hstate)
    · exact fun _ _ hfinished ↦ hfinished
    · exact fun _ _ _ ↦ trivial
  · exact fun _ _ hfalse ↦ hfalse.elim

theorem finish_spec (h : Refines request l u) :
    wp finish (fun _ l' ↦ Finished request u l') (fun _ _ ↦ True) l := by
  unfold finish
  rw [wp_bind, wp_get, if_pos h.writing, wp_onException]
  apply wp_mono (finishWriting_spec h)
  · exact fun _ _ hfinished ↦ hfinished
  · exact fun _ _ _ ↦ wp_trivial

/-! ## The main result -/

/-- Calls that all return and write fields into open messages only, and a `finish` that returns:
what is handed to the stream are the records of the instruments and the messages that the calls
ended, in blocks, and then the terminator. -/
theorem upload_wellFormed (hopened : Opened l) {calls : List Call} (horder : OrderedRun calls l)
    (hrun : upload calls l = .ok () l') :
    ∃ blocks : List Block,
      l'.ioStream.handed =
        l.ioStream.handed ++ (blocks.flatMap Block.encode ++ [terminatorBlockId]) ∧
      blocks.flatMap Block.messageBodies = committedOver calls l ∧
      blocks.flatMap Block.symbols = (runAll calls l).instruments := by
  have hfinished : wp (upload calls)
      (fun _ l' ↦ ∃ u, u.symbols = (runAll calls l).instruments ∧
        u.messages = committedOver calls l ∧ Finished l.ioStream.handed u l')
      (fun _ _ ↦ True) l := by
    rw [upload, wp_bind]
    apply wp_mono (hopened.uploading.run horder)
    · rintro - reached ⟨hreached, u, huploading, hmessages⟩
      have hsymbols := huploading.symbols
      rw [hreached] at hsymbols
      apply wp_mono (finish_spec huploading.refines)
      · exact fun _ _ hfinished ↦ ⟨u, hsymbols, hmessages, hfinished⟩
      · exact fun _ _ _ ↦ trivial
    · exact fun _ _ _ ↦ trivial
  rw [wp_ok hrun] at hfinished
  obtain ⟨u, hsymbols, hmessages, blocks, hblocks, hbodies, hhanded⟩ := hfinished
  exact ⟨blocks, hhanded, hbodies.trans hmessages, hblocks.trans hsymbols⟩

/-- One message with a field, which is committed, and a second one that is open at `finish`. -/
def twoMessages : List Call :=
  [.next 0 [65] 0, .field (.word [7] 1), .commitMessage, .next 0 [65] 1]

theorem upload_twoMessages :
    ∃ blocks : List Block,
      (finalState (upload twoMessages) (openedLoader 100)).ioStream.handed =
        blocks.flatMap Block.encode ++ [terminatorBlockId] ∧
      blocks.flatMap Block.messageBodies = [[0, 0, 0, 0, 0, 0, 0, 0, 0, 0, 0, 7]] := by
  have horder : OrderedRun twoMessages (openedLoader 100) := by
    refine ⟨?_, ?_, ?_, ?_, trivial⟩
    · exact fun _ hcall ↦ Call.noConfusion hcall
    · exact fun _ _ ↦ by decide +kernel
    · exact fun _ hcall ↦ Call.noConfusion hcall
    · exact fun _ hcall ↦ Call.noConfusion hcall
  have hreturns : returns (upload twoMessages) (openedLoader 100) = true := by decide +kernel
  have hcommitted : committedOver twoMessages (openedLoader 100) =
      [[0, 0, 0, 0, 0, 0, 0, 0, 0, 0, 0, 7]] := by
    decide +kernel
  obtain ⟨blocks, hhanded, hbodies, -⟩ :=
    upload_wellFormed (opened_openedLoader 100) horder (eq_ok_of_returns hreturns)
  exact ⟨blocks, hhanded, hbodies.trans hcommitted⟩

/-- A field that is written after the message was committed. -/
def fieldAfterCommit : List Call := [.next 0 [65] 0, .commitMessage, .field (.word [0xFF] 1)]

/-- Nothing is thrown, but the byte of the field is read as part of the next length. -/
theorem fieldAfterCommit_malformed :
    ¬ ∀ (l l' : TickLoaderImpl) (calls : List Call), Opened l → upload calls l = .ok () l' →
      ∃ blocks : List Block, l'.ioStream.handed =
        l.ioStream.handed ++ (blocks.flatMap Block.encode ++ [terminatorBlockId]) := by
  intro hall
  have hreturns : returns (upload fieldAfterCommit) (openedLoader 100) = true := by decide +kernel
  have hposition : (Receiver.start.readAll
      (finalState (upload fieldAfterCommit) (openedLoader 100)).ioStream.handed).position ≠
        .finished := by
    decide +kernel
  obtain ⟨blocks, hhanded⟩ := hall (openedLoader 100)
    (finalState (upload fieldAfterCommit) (openedLoader 100)) fieldAfterCommit
    (opened_openedLoader 100) (eq_ok_of_returns hreturns)
  rw [hhanded] at hposition
  exact hposition (Receiver.readAll_finished blocks)

end DxApi.Loader
