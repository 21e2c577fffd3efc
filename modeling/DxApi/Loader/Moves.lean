import DxApi.Loader.Refinement

/-!
# What the calls of a loader do to the upload

Outside of messages a loader writes block headers, instrument records and the ends of blocks, each
of which is a move of the upload if it fits in the buffer. The specifications here say for each
member function which moves it makes when it returns, and what has to hold for it to return.
-/

namespace DxApi.Loader

open Exec ByteMemory ByteOrder Writer Net TickLoaderImpl

variable {request : List UInt8} {l l' : TickLoaderImpl} {u u' : Upload} {w w' w'' : DataWriter}

/-! ## Between messages -/

theorem Appended.append {first second : List UInt8} (h : Appended first w w')
    (h' : Appended second w' w'') : Appended (first ++ second) w w'' := by
  have hptr := h.dataPtr
  have hptr' := h'.dataPtr
  have hrest := h.rest
  refine ⟨?_, ?_, ?_, ?_⟩
  · rw [hptr', hptr, List.length_append]
    push_cast
    ring
  · rw [slice_append _ w'.dataPtr (by omega) (by omega), h'.data,
      slice_congr fun address _ hlt ↦ h'.before address hlt, h.data]
  · intro address hlt
    rw [h'.before address (by omega), h.before address hlt]
  · rw [h'.rest, hrest]

theorem putBE_appended (data : List UInt8) (w : DataWriter) :
    wp (putBE data data.length) (fun _ w' ↦ Appended data w w' ∧ w'.dataPtr ≤ w.dataEnd)
      (fun _ _ ↦ ¬ w.dataPtr + data.length ≤ w.dataEnd) w := by
  have hstored := slice_store w.mem w.dataPtr data
  simp only [putBE, onOverflow, wp_bind, wp_get, wp_set, wp_ite, wp_throw, wp_pure]
  exact ⟨fun hover ↦ not_le.mpr hover, fun hfits ↦
    ⟨⟨rfl, hstored, fun address hlt ↦ store_of_lt hlt, rfl⟩, not_lt.mp hfits⟩⟩

theorem putBytes_appended (data : List UInt8) (w : DataWriter) :
    wp (putBytes data) (fun _ w' ↦ Appended data w w' ∧ w'.dataPtr ≤ w.dataEnd)
      (fun _ _ ↦ ¬ w.dataPtr + data.length ≤ w.dataEnd) w := by
  have hstored := slice_store w.mem w.dataPtr data
  simp only [putBytes, onOverflow, wp_bind, wp_get, wp_set, wp_ite, wp_throw]
  refine ⟨fun hbehind ↦ ?_, fun _ ↦ ⟨fun hover ↦ not_le.mpr hover, fun hfits ↦
    ⟨⟨rfl, hstored, fun address hlt ↦ store_of_lt hlt, rfl⟩, not_lt.mp hfits⟩⟩⟩
  omega

/-- A symbol is written with its length in front. -/
theorem writeUTF8_appended (name : List UInt8) (w : DataWriter) :
    wp (writeUTF8 name)
      (fun _ w' ↦ name.length < 0xFFFF ∧ Appended (bigEndian 2 name.length ++ name) w w' ∧
        w'.dataPtr ≤ w.dataEnd)
      (fun _ _ ↦ ¬ (name.length < 0xFFFF ∧ w.dataPtr + (2 + name.length : ℕ) ≤ w.dataEnd)) w := by
  unfold writeUTF8
  by_cases hlong : 0xFFFF ≤ name.length
  · rw [if_pos hlong]
    exact fun hfits ↦ absurd hfits.1 (not_lt.mpr hlong)
  · rw [if_neg hlong, wp_bind]
    have hlength := putBE_appended (bigEndian 2 name.length) w
    rw [length_bigEndian] at hlength
    apply wp_mono hlength
    · rintro - w' ⟨hw', hend⟩
      have hptr : w'.dataPtr = w.dataPtr + 2 := by simpa using hw'.dataPtr
      have hlimit : w'.dataEnd = w.dataEnd := by rw [hw'.rest]
      by_cases hempty : name.length ≠ 0
      · rw [if_pos hempty]
        apply wp_mono (putBytes_appended name w')
        · rintro - w'' ⟨hw'', hend'⟩
          exact ⟨not_le.mp hlong, Appended.append hw' hw'', hlimit ▸ hend'⟩
        · rintro error w'' hover ⟨-, hfits⟩
          push_cast at hfits
          omega
      · rw [if_neg hempty]
        have hnil : name = [] := List.length_eq_zero_iff.mp (not_not.mp hempty)
        rw [hnil, List.append_nil]
        rw [hnil] at hw'
        exact ⟨by decide, hw', hend⟩
    · rintro error w' hover ⟨-, hfits⟩
      push_cast at hfits hover
      omega

/-- Bytes written outside of messages. -/
theorem Refines.append {data : List UInt8} (h : Refines request l u) (hstate : l.state ≠ .messageBody)
    (hdata : Appended data l.messageWriter l'.messageWriter)
    (hrest : l' = { l with messageWriter := l'.messageWriter, state := l'.state })
    (hstate' : l'.state ≠ .messageBody) (hwriting : l'.state.isWriting = true)
    (hblock : l'.state.isWritingMessage = u'.current.isSome) (hencode : u'.encode = u.encode ++ data) :
    Refines request l' u' := by
  have hptr := hdata.dataPtr
  have hbase := h.base
  have huploaded := h.uploaded
  rw [committedEnd, if_neg hstate] at hbase
  rw [TickLoaderImpl.uploaded, committedEnd, if_neg hstate] at huploaded
  have hstart : l'.messageWriter.bufferStart = l.messageWriter.bufferStart := by rw [hdata.rest]
  have hpointer : l'.writePtr = l.writePtr := by rw [hrest]
  have hstream : l'.ioStream = l.ioStream := by rw [hrest]
  have hbuffer := h.writePtr
  refine ⟨hwriting, hblock, ?_, ?_, ?_, fun hbody ↦ absurd hbody hstate', ?_, ?_, ?_, ?_⟩
  · rw [hpointer, hstart]
    exact h.writePtr
  · rw [committedEnd, if_neg hstate', hstart]
    omega
  · rw [TickLoaderImpl.uploaded, committedEnd, if_neg hstate', hpointer, hstream,
      slice_append _ l.messageWriter.dataPtr (by omega) (by omega), hdata.data,
      slice_congr fun address _ hlt ↦ hdata.before address hlt, ← List.append_assoc, huploaded, hencode,
      List.append_assoc]
  · rw [hrest]
    exact h.connected
  · rw [hstream]
    exact h.outputClosed
  · rw [hrest]
    exact h.interruption
  · have hend : l'.messageWriter.dataEnd = l.messageWriter.dataEnd := by rw [hdata.rest]
    rw [hend, hstart]
    exact h.dataEnd

/-! ## Blocks -/

namespace TickLoaderImpl

/-- The message that is ended when the open message, if any, is ended. -/
def endedBody (l : TickLoaderImpl) : List (List UInt8) :=
  if l.state = .messageBody then [l.finishedBody] else []

/-- Where the buffer ends once the open message is ended. -/
def topPosition (l : TickLoaderImpl) : ℤ :=
  if l.state = .messageBody then l.positionAfterEnd else l.messageWriter.dataPtr

/-- Where the buffer ends once the open message block is ended. -/
def blockPosition (l : TickLoaderImpl) : ℤ :=
  l.topPosition + if l.state.isWritingMessage then 4 else 0

/-- The open message block can be ended. -/
def CanEndBlock (l : TickLoaderImpl) : Prop :=
  (l.state = .messageBody → l.CanEnd) ∧ l.blockPosition ≤ l.messageWriter.dataEnd

/-- A new instrument can be registered: its name is short enough, the open message can be ended, and
there is room for the end of the block and the record. -/
def CanRegister (name : List UInt8) (l : TickLoaderImpl) : Prop :=
  (l.state = .messageBody → l.CanEnd) ∧ name.length < 0xFFFF ∧
    l.blockPosition + (3 + name.length : ℕ) ≤ l.messageWriter.dataEnd

end TickLoaderImpl

/-- A move to an upload `u'` with the same instruments and `added` messages more. -/
structure Moved (request : List UInt8) (added : List (List UInt8)) (l l' : TickLoaderImpl)
    (u u' : Upload) : Prop where
  refines : Refines request l' u'
  symbols : u'.symbols = u.symbols
  messages : u'.messages = u.messages ++ added
  same : Same l l'

theorem closeBlock_spec (h : Refines request l u) (hstate : l.state = .messageStart) :
    wp (do setState .notInMessageBlock; writeMessageBlockEnd)
      (fun _ l' ↦ Moved request [] l l' u u.closeBlock ∧ l'.state = .notInMessageBlock ∧
        l'.messageWriter.dataPtr = l.messageWriter.dataPtr + 4 ∧ InBuffer l')
      (fun _ _ ↦ ¬ l.messageWriter.dataPtr + 4 ≤ l.messageWriter.dataEnd) l := by
  have hmessage : l.state.isWritingMessage = true := by rw [hstate]; rfl
  obtain ⟨bodies, hcurrent⟩ := h.current hmessage
  have hnotBody : l.state ≠ .messageBody := by
    rw [hstate]
    exact State.noConfusion
  have hnotBody' : State.notInMessageBlock ≠ State.messageBody := State.noConfusion
  have hput := putBE_appended (bigEndian 4 messageBlockTerminatorRecord) l.messageWriter
  rw [length_bigEndian] at hput
  rw [wp_bind, setState, wp_modify, writeMessageBlockEnd, onWriter, wp_zoom]
  apply wp_mono hput
  · rintro - w' ⟨hw', hend⟩
    have hencode := Upload.encode_closeBlock hcurrent
    have hlimit : w'.dataEnd = l.messageWriter.dataEnd := by rw [hw'.rest]
    refine ⟨⟨?_, Upload.symbols_closeBlock, ?_, ⟨rfl, rfl, hlimit, rfl, rfl⟩⟩, rfl, ?_, ?_⟩
    · exact h.append hnotBody hw' rfl hnotBody' rfl rfl hencode
    · rw [Upload.messages_closeBlock, List.append_nil]
    · simpa using hw'.dataPtr
    · exact hend.trans hlimit.ge
  · exact fun _ _ hover ↦ hover

theorem Moved.trans {first second : List (List UInt8)} {l'' : TickLoaderImpl} {u'' : Upload}
    (h : Moved request first l l' u u') (h' : Moved request second l' l'' u' u'') :
    Moved request (first ++ second) l l'' u u'' := by
  refine ⟨h'.refines, h'.symbols.trans h.symbols, ?_, h.same.trans h'.same⟩
  rw [h'.messages, h.messages, List.append_assoc]

/-- Ending the message block that is open, if one is. -/
theorem endMessageBlockIfNeeded_spec (h : Refines request l u)
    (hbounded : l.state = .messageBody → Bounded l) :
    wp endMessageBlockIfNeeded
      (fun _ l' ↦ ∃ u', Moved request l.endedBody l l' u u' ∧ l'.state = .notInMessageBlock ∧
        l'.messageWriter.dataPtr = l.blockPosition ∧ (InBuffer l → InBuffer l'))
      (fun _ _ ↦ ¬ CanEndBlock l) l := by
  unfold endMessageBlockIfNeeded
  rw [wp_bind, wp_get]
  by_cases hmessage : l.state.isWritingMessage = true
  · rw [if_pos hmessage]
    by_cases hbody : l.state = .messageBody
    · rw [if_pos hbody, wp_bind]
      apply wp_mono (endMessage_spec h hbody (hbounded hbody))
      · rintro - first ⟨-, body, hfinished, hfirst, hstart, hsame, hptr, hin⟩
        obtain ⟨bodies, hcurrent⟩ := h.current hmessage
        have hmoved : Moved request l.endedBody l first u (u.putMessage body) := by
          refine ⟨hfirst, Upload.symbols_putMessage body, ?_, hsame⟩
          rw [Upload.messages_putMessage hcurrent, hfinished, endedBody, if_pos hbody]
        have hposition : l.blockPosition = first.messageWriter.dataPtr + 4 := by
          rw [blockPosition, topPosition, if_pos hbody, if_pos hmessage, hptr]
        apply wp_mono (closeBlock_spec hfirst hstart)
        · rintro - last ⟨hlast, hstate, hptr', hin'⟩
          have hboth := hmoved.trans hlast
          rw [List.append_nil] at hboth
          exact ⟨_, hboth, hstate, hptr'.trans hposition.symm, fun _ ↦ hin'⟩
        · rintro error last hover ⟨-, hfits⟩
          rw [hposition] at hfits
          rw [hsame.dataEnd] at hover
          exact hover hfits
      · rintro error first ⟨hcannot, -⟩ hcan
        exact hcannot (hcan.1 hbody)
    · rw [if_neg hbody]
      have hstart : l.state = .messageStart := by
        cases hstate : l.state with
        | messageStart => rfl
        | messageBody => exact absurd hstate hbody
        | notInitialized | finishedWriting | notInMessageBlock =>
          rw [hstate] at hmessage
          cases hmessage
      have hposition : l.blockPosition = l.messageWriter.dataPtr + 4 := by
        rw [blockPosition, topPosition, if_neg hbody, if_pos hmessage]
      have hended : l.endedBody = [] := if_neg hbody
      rw [hended, hposition]
      apply wp_mono (closeBlock_spec h hstart)
      · rintro - last ⟨hlast, hstate, hptr, hin⟩
        exact ⟨_, hlast, hstate, hptr, fun _ ↦ hin⟩
      · rintro error last hover ⟨-, hfits⟩
        rw [hposition] at hfits
        exact hover hfits
  · rw [if_neg hmessage]
    have hstate : l.state = .notInMessageBlock := by
      have hwriting := h.writing
      cases hstate : l.state with
      | notInMessageBlock => rfl
      | messageStart | messageBody => exact absurd (by rw [hstate]; rfl) hmessage
      | notInitialized | finishedWriting =>
        rw [hstate] at hwriting
        cases hwriting
    have hnotBody : l.state ≠ .messageBody := by
      rw [hstate]
      exact State.noConfusion
    refine ⟨u, ⟨h, rfl, ?_, Same.refl l⟩, hstate, ?_, id⟩
    · rw [endedBody, if_neg hnotBody, List.append_nil]
    · rw [blockPosition, topPosition, if_neg hnotBody, if_neg hmessage, Int.add_zero]

/-! ## Instruments -/

/-- The record of an instrument, outside of message blocks. -/
theorem putInstrument_spec (h : Refines request l u) (hstate : l.state = .notInMessageBlock)
    (name : List UInt8) :
    wp (do onWriter (putByte instrumentBlockId); onWriter (writeUTF8 name))
      (fun _ l' ↦ ∃ symbol : Symbol, symbol.val = name ∧ Refines request l' (u.putInstrument symbol) ∧
        Same l l' ∧ l'.state = .notInMessageBlock ∧
        l'.messageWriter.dataPtr = l.messageWriter.dataPtr + (3 + name.length : ℕ) ∧ InBuffer l')
      (fun _ _ ↦ ¬ (name.length < 0xFFFF ∧
        l.messageWriter.dataPtr + (3 + name.length : ℕ) ≤ l.messageWriter.dataEnd)) l := by
  have hcurrent := h.no_current hstate
  have hnotBody : l.state ≠ .messageBody := by
    rw [hstate]
    exact State.noConfusion
  have hid := putBE_appended [instrumentBlockId] l.messageWriter
  simp only [onWriter, wp_bind, wp_zoom]
  apply wp_mono hid
  · rintro - first ⟨hfirst, hfit⟩
    have hptr : first.dataPtr = l.messageWriter.dataPtr + 1 := by simpa using hfirst.dataPtr
    have hlimit : first.dataEnd = l.messageWriter.dataEnd := by rw [hfirst.rest]
    apply wp_mono (writeUTF8_appended name first)
    · rintro - last ⟨hshort, hlast, hfit'⟩
      have hptr' := hlast.dataPtr
      have hlimit' : last.dataEnd = l.messageWriter.dataEnd := by rw [hlast.rest, hlimit]
      rw [List.length_append, length_bigEndian] at hptr'
      have hencode := Upload.encode_putInstrument hcurrent ⟨name, hshort⟩
      refine ⟨⟨name, hshort⟩, rfl, ?_, ⟨rfl, rfl, hlimit', rfl, rfl⟩, hstate, ?_, ?_⟩
      · exact h.append hnotBody (Appended.append hfirst hlast) rfl hnotBody h.writing h.block hencode
      · rw [hptr', hptr]
        push_cast
        ring
      · change last.dataPtr ≤ last.dataEnd
        rw [hlimit', ← hlimit]
        exact hfit'
    · rintro error last hover ⟨hshort, hfits⟩
      refine hover ⟨hshort, ?_⟩
      push_cast at hfits ⊢
      omega
  · rintro error first hover ⟨-, hfits⟩
    simp only [List.length_singleton] at hover
    push_cast at hfits hover
    omega

theorem checkWriterInterruption_spec (hworking : l.interruption = .working)
    {post : Unit → TickLoaderImpl → Prop} {fail : LoadError → TickLoaderImpl → Prop} :
    wp checkWriterInterruption post fail l ↔ post () l := by
  unfold checkWriterInterruption
  rw [wp_bind, wp_get, if_neg (not_not.mpr hworking), wp_pure]

theorem writeInstrumentBlock_spec (h : Refines request l u) (hworking : l.interruption = .working)
    (hbounded : l.state = .messageBody → Bounded l) (name : List UInt8) :
    wp (writeInstrumentBlock name)
      (fun _ l' ↦ ∃ u', Refines request l' u' ∧ u'.symbols = u.symbols ++ [name] ∧
        u'.messages = u.messages ++ l.endedBody ∧ Same l l' ∧ l'.state = .notInMessageBlock ∧
        l'.messageWriter.dataPtr = l.blockPosition + (3 + name.length : ℕ) ∧ InBuffer l')
      (fun _ _ ↦ ¬ CanRegister name l) l := by
  unfold writeInstrumentBlock
  rw [wp_bind]
  apply wp_mono (endMessageBlockIfNeeded_spec h hbounded)
  · rintro - middle ⟨u₁, hmoved, hstate, hptr, hin⟩
    rw [wp_bind, checkWriterInterruption_spec (hmoved.same.interruption.trans hworking)]
    apply wp_mono (putInstrument_spec hmoved.refines hstate name)
    · rintro - last ⟨symbol, hsymbol, hlast, hsame, hstate', hptr', hin'⟩
      refine ⟨_, hlast, ?_, ?_, hmoved.same.trans hsame, hstate', ?_, hin'⟩
      · rw [Upload.symbols_putInstrument, hsymbol, hmoved.symbols]
      · rw [Upload.messages_putInstrument, hmoved.messages]
      · rw [hptr', hptr]
    · rintro error last hover ⟨-, hshort, hfits⟩
      rw [hptr, hmoved.same.dataEnd] at hover
      exact hover ⟨hshort, hfits⟩
  · rintro error middle hcannot ⟨hcan, hshort, hfits⟩
    refine hcannot ⟨hcan, ?_⟩
    push_cast at hfits
    omega

/-- What a call that returns leaves: the upload is `bodies` longer, and if the instruments were
numbered as in the upload, they still are. -/
structure Advanced (request : List UInt8) (bodies : List (List UInt8)) (l l' : TickLoaderImpl)
    (u u' : Upload) : Prop where
  refines : Refines request l' u'
  numbered : u.symbols = l.instruments → u'.symbols = l'.instruments
  instruments : l.instruments <+: l'.instruments
  messages : u'.messages = u.messages ++ bodies
  interruption : l'.interruption = l.interruption
  dataEnd : l'.messageWriter.dataEnd = l.messageWriter.dataEnd
  typeIndex : l'.typeIndex = l.typeIndex
  typeIdLocal2Remote : l'.typeIdLocal2Remote = l.typeIdLocal2Remote

theorem Advanced.refl (h : Refines request l u) : Advanced request [] l l u u :=
  ⟨h, id, List.prefix_rfl, (List.append_nil _).symm, rfl, rfl, rfl, rfl⟩

theorem Advanced.trans {first second : List (List UInt8)} {l'' : TickLoaderImpl} {u'' : Upload}
    (h : Advanced request first l l' u u') (h' : Advanced request second l' l'' u' u'') :
    Advanced request (first ++ second) l l'' u u'' := by
  refine ⟨h'.refines, fun hnumbered ↦ h'.numbered (h.numbered hnumbered),
    h.instruments.trans h'.instruments, ?_, h'.interruption.trans h.interruption, h'.dataEnd.trans h.dataEnd,
    h'.typeIndex.trans h.typeIndex, h'.typeIdLocal2Remote.trans h.typeIdLocal2Remote⟩
  rw [h'.messages, h.messages, List.append_assoc]

theorem Moved.advanced {bodies : List (List UInt8)} (h : Moved request bodies l l' u u') :
    Advanced request bodies l l' u u' := by
  have hinstruments := h.same.instruments
  refine ⟨h.refines, fun hnumbered ↦ ?_, ?_, h.messages, h.same.interruption, h.same.dataEnd,
    h.same.typeIndex, h.same.typeIdLocal2Remote⟩
  · rw [h.symbols, hnumbered, hinstruments]
  · exact hinstruments ▸ List.prefix_rfl

/-- A known instrument changes nothing; a new one is written behind the open message. -/
theorem getInstrumentId_spec (h : Refines request l u) (hworking : l.interruption = .working)
    (hbounded : l.state = .messageBody → Bounded l) (name : List UInt8) :
    wp (getInstrumentId name)
      (fun entityId l' ↦ l'.instruments[entityId]? = some name ∧
        if name ∈ l.instruments then l' = l else ∃ u', Advanced request l.endedBody l l' u u' ∧ l'.state = .notInMessageBlock ∧
          l'.messageWriter.dataPtr = l.blockPosition + (3 + name.length : ℕ) ∧ InBuffer l')
      (fun _ _ ↦ name ∉ l.instruments ∧ ¬ CanRegister name l) l := by
  unfold getInstrumentId
  rw [wp_bind, wp_get]
  by_cases hknown : name ∈ l.instruments
  · simp only [if_pos hknown]
    exact ⟨List.getElem?_idxOf hknown, rfl⟩
  · simp only [if_neg hknown]
    obtain ⟨named, hnamed⟩ : ∃ named : TickLoaderImpl,
        named = { l with instruments := l.instruments ++ [name] } := ⟨_, rfl⟩
    rw [wp_bind, wp_set, ← hnamed]
    have hrefines : Refines request named u := by
      rw [hnamed]
      exact ⟨h.writing, h.block, h.writePtr, h.base, h.uploaded, h.message, h.connected,
        h.outputClosed, h.interruption, h.dataEnd⟩
    have hworking' : named.interruption = .working := by
      rw [hnamed]
      exact hworking
    have hbounded' : named.state = .messageBody → Bounded named := by
      rw [hnamed]
      exact hbounded
    rw [wp_bind]
    apply wp_mono (writeInstrumentBlock_spec hrefines hworking' hbounded' name)
    · rintro - last ⟨u', hlast, hsymbols, hmessages, hsame, hstate, hptr, hin⟩
      have hended : named.endedBody = l.endedBody := by
        rw [hnamed]
        rfl
      have hposition : named.blockPosition = l.blockPosition := by
        rw [hnamed]
        rfl
      rw [hended] at hmessages
      rw [hposition] at hptr
      have hinstruments : last.instruments = l.instruments ++ [name] := by
        rw [hsame.instruments, hnamed]
      refine ⟨?_, u', ⟨hlast, fun hnumbered ↦ ?_, ?_, hmessages, ?_, ?_, ?_, ?_⟩, hstate, hptr, hin⟩
      · rw [hinstruments, List.getElem?_concat_length]
      · rw [hsymbols, hnumbered, hinstruments]
      · rw [hinstruments]
        exact List.prefix_append _ _
      · rw [hsame.interruption, hnamed]
      · rw [hsame.dataEnd, hnamed]
      · rw [hsame.typeIndex, hnamed]
      · rw [hsame.typeIdLocal2Remote, hnamed]
    · rintro error last hcannot
      refine ⟨hknown, fun hcan ↦ hcannot ?_⟩
      rw [hnamed]
      exact hcan

/-! ## Messages -/

namespace TickLoaderImpl

/-- Where the length of the next message goes. -/
def nextStart (shouldCommit : Bool) (l : TickLoaderImpl) : ℤ :=
  match l.state with
  | .notInMessageBlock => l.messageWriter.dataPtr + 1
  | .messageBody => if shouldCommit then l.positionAfterEnd else l.messageStart - 4
  | .messageStart | .notInitialized | .finishedWriting => l.messageWriter.dataPtr

/-- A next message can be opened: there is room for its length if the open message is ended, and that
message, if it is to be ended, is balanced. -/
structure CanOpen (shouldCommit : Bool) (l : TickLoaderImpl) : Prop where
  room : (l.state = .messageBody → shouldCommit = true → CanEnd l) →
    l.nextStart shouldCommit + 4 ≤ l.messageWriter.dataEnd
  balanced : l.state = .messageBody → shouldCommit = true → Balanced l.messageWriter

/-- The message that is ended, if `ends` holds. -/
def endedIf (ends : Prop) [Decidable ends] (l : TickLoaderImpl) : List (List UInt8) :=
  if ends then l.endedBody else []

end TickLoaderImpl

/-- The open message is still open. -/
structure StillOpen (request : List UInt8) (l l' : TickLoaderImpl) (u : Upload) : Prop where
  refines : Refines request l' u
  state : l'.state = .messageBody
  same : Same l l'

theorem StillOpen.trans {l'' : TickLoaderImpl} (h : StillOpen request l l' u)
    (h' : StillOpen request l' l'' u) : StillOpen request l l'' u :=
  ⟨h'.refines, h'.state, h.same.trans h'.same⟩

theorem StillOpen.moved (h : StillOpen request l l' u) : Moved request [] l l' u u :=
  ⟨h.refines, rfl, (List.append_nil _).symm, h.same⟩

/-- A call on the writer while a message is open. -/
theorem onWriter_open {program : WriterM Unit} (h : Refines request l u) (hstate : l.state = .messageBody)
    (hprogram : FieldWritten l.messageStart program l.messageWriter) :
    wp (onWriter program) (fun _ l' ↦ StillOpen request l l' u ∧ (InBuffer l → InBuffer l'))
      (fun _ l' ↦ StillOpen request l l' u) l := by
  have hopen : ∀ w', InMessage l.messageStart l.messageWriter w' →
      StillOpen request l { l with messageWriter := w' } u :=
    fun w' hw' ↦ ⟨h.inMessage hstate hw' rfl, hstate, ⟨rfl, rfl, hw'.dataEnd, rfl, rfl⟩⟩
  rw [onWriter, wp_zoom]
  apply wp_mono hprogram
  · rintro - w' ⟨hw', hend⟩
    exact ⟨hopen w' hw', hend⟩
  · intro error w' hw'
    exact hopen w' hw'

/-- `cancelMessage` leaves the upload as it is. -/
theorem cancelMessage_spec (h : Refines request l u) (hstate : l.state = .messageBody) :
    wp (do cancelMessage; setState .messageStart)
      (fun _ l' ↦ Moved request [] l l' u u ∧ l'.state = .messageStart ∧
        l'.messageWriter.dataPtr = l.messageStart - 4 ∧ (InBuffer l → InBuffer l'))
      (fun _ _ ↦ False) l := by
  have hopen := h.message hstate
  have hstart := hopen.dataPtr
  have hbase := h.base
  have huploaded := h.uploaded
  have hnotBody : ¬ State.messageStart = State.messageBody := State.noConfusion
  rw [committedEnd, if_pos hstate] at hbase
  rw [TickLoaderImpl.uploaded, committedEnd, if_pos hstate] at huploaded
  rw [wp_bind, cancelMessage, wp_modify, setState, wp_modify]
  have hblock : true = u.current.isSome := by
    rw [← h.block, hstate]
    rfl
  refine ⟨⟨⟨rfl, hblock, h.writePtr, ?_, ?_, fun hfalse ↦ absurd hfalse hnotBody, h.connected,
    h.outputClosed, h.interruption, h.dataEnd⟩, rfl, (List.append_nil _).symm, rfl, rfl, rfl, rfl, rfl⟩,
    rfl, rfl, ?_⟩
  · rw [committedEnd, if_neg hnotBody]
    exact hbase
  · rw [TickLoaderImpl.uploaded, committedEnd, if_neg hnotBody]
    exact huploaded
  · unfold InBuffer
    intro hl
    change l.messageStart - 4 ≤ l.messageWriter.dataEnd
    omega

theorem openBlock_spec (h : Refines request l u) (hstate : l.state = .notInMessageBlock) :
    wp (do onWriter (putByte messageBlockId); setState .messageStart)
      (fun _ l' ↦ Moved request [] l l' u u.openBlock ∧ l'.state = .messageStart ∧
        l'.messageWriter.dataPtr = l.messageWriter.dataPtr + 1 ∧ InBuffer l')
      (fun _ _ ↦ ¬ l.messageWriter.dataPtr + 1 ≤ l.messageWriter.dataEnd) l := by
  have hcurrent := h.no_current hstate
  have hnotBody : l.state ≠ .messageBody := by
    rw [hstate]
    exact State.noConfusion
  have hnotBody' : State.messageStart ≠ State.messageBody := State.noConfusion
  have hput := putBE_appended [messageBlockId] l.messageWriter
  rw [wp_bind, onWriter, wp_zoom]
  apply wp_mono hput
  · rintro - w' ⟨hw', hend⟩
    rw [setState, wp_modify]
    have hencode := Upload.encode_openBlock hcurrent
    have hlimit : w'.dataEnd = l.messageWriter.dataEnd := by rw [hw'.rest]
    refine ⟨⟨?_, Upload.symbols_openBlock, ?_, ⟨rfl, rfl, hlimit, rfl, rfl⟩⟩, rfl, ?_, ?_⟩
    · exact h.append hnotBody hw' rfl hnotBody' rfl rfl hencode
    · rw [Upload.messages_openBlock hcurrent, List.append_nil]
    · exact hw'.dataPtr
    · exact hend.trans hlimit.ge
  · exact fun _ _ hover ↦ hover

/-- The previous message is committed or cancelled, and a block is open. -/
theorem leaveMessage_spec (h : Refines request l u) (hbounded : l.state = .messageBody → Bounded l)
    (shouldCommit : Bool) :
    wp (leaveMessage shouldCommit)
      (fun _ l' ↦ ∃ u', Moved request (l.endedIf shouldCommit) l l' u u' ∧ l'.state = .messageStart ∧
        l'.messageWriter.dataPtr = l.nextStart shouldCommit ∧ (InBuffer l → InBuffer l') ∧
        (l.state = .messageBody → shouldCommit = true → CanEnd l))
      (fun _ l' ↦ CanOpen shouldCommit l → Moved request [] l l' u u) l := by
  unfold leaveMessage
  rw [wp_bind, wp_get]
  have hnone : l.state ≠ .messageBody → l.endedIf shouldCommit = [] := by
    intro hnot
    rw [endedIf, endedBody, if_neg hnot, ite_self]
  cases hstate : l.state with
  | notInMessageBlock =>
    have hnotBody : ¬ State.notInMessageBlock = State.messageBody := State.noConfusion
    have hended := hnone (hstate ▸ hnotBody)
    have hstart : l.nextStart shouldCommit = l.messageWriter.dataPtr + 1 := by
      rw [nextStart, hstate]
    rw [hended, hstart]
    apply wp_mono (openBlock_spec h hstate)
    · rintro - l' ⟨hmoved, hstate', hptr, hin⟩
      exact ⟨_, hmoved, hstate', hptr, fun _ ↦ hin, fun hbody ↦ absurd hbody hnotBody⟩
    · intro error l' hover hcan
      have hroom := hcan.room fun hbody ↦ absurd (hstate ▸ hbody) hnotBody
      rw [hstart] at hroom
      omega
  | messageStart =>
    have hnotBody : ¬ State.messageStart = State.messageBody := State.noConfusion
    have hended := hnone (hstate ▸ hnotBody)
    have hstart : l.nextStart shouldCommit = l.messageWriter.dataPtr := by rw [nextStart, hstate]
    rw [hended, hstart, wp_pure]
    exact ⟨u, ⟨h, rfl, (List.append_nil _).symm, Same.refl l⟩, hstate, rfl, id,
      fun hbody ↦ absurd hbody hnotBody⟩
  | messageBody =>
    obtain ⟨bodies, hcurrent⟩ := h.current (by rw [hstate]; rfl)
    cases shouldCommit with
    | true =>
      have hstart : l.nextStart true = l.positionAfterEnd := by
        rw [nextStart, hstate]
        rfl
      have hended : l.endedIf true = [l.finishedBody] := by
        rw [endedIf, if_pos rfl, endedBody, if_pos hstate]
      rw [hended, hstart]
      apply wp_mono (endMessage_spec h hstate (hbounded hstate))
      · rintro - l' ⟨hcan, body, hbody, hrefines, hstate', hsame, hptr, hin⟩
        refine ⟨_, ⟨hrefines, Upload.symbols_putMessage body, ?_, hsame⟩, hstate', hptr, hin,
          fun _ _ ↦ hcan⟩
        rw [Upload.messages_putMessage hcurrent, hbody]
      · rintro error l' ⟨-, hkept⟩ hcan
        obtain ⟨hrefines, -, hsame⟩ := hkept (hcan.balanced hstate rfl)
        exact ⟨hrefines, rfl, (List.append_nil _).symm, hsame⟩
    | false =>
      have hstart : l.nextStart false = l.messageStart - 4 := by
        rw [nextStart, hstate]
        rfl
      rw [hstart]
      apply wp_mono (cancelMessage_spec h hstate)
      · rintro - l' ⟨hmoved, hstate', hptr, hin⟩
        exact ⟨u, hmoved, hstate', hptr, hin, fun _ hfalse ↦ absurd hfalse Bool.false_ne_true⟩
      · exact fun _ _ hfalse ↦ hfalse.elim
  | notInitialized | finishedWriting =>
    have hwriting := h.writing
    rw [hstate] at hwriting
    cases hwriting

theorem openMessage_spec (h : Refines request l u) (hstate : l.state = .messageStart) :
    wp openMessage
      (fun _ l' ↦ StillOpen request l l' u ∧ InBuffer l')
      (fun _ _ ↦ ¬ l.messageWriter.dataPtr + 4 ≤ l.messageWriter.dataEnd) l := by
  have hnotBody : l.state ≠ .messageBody := by
    rw [hstate]
    exact State.noConfusion
  have hbase := h.base
  have huploaded := h.uploaded
  have hbuffer := h.writePtr
  rw [committedEnd, if_neg hnotBody] at hbase
  rw [TickLoaderImpl.uploaded, committedEnd, if_neg hnotBody] at huploaded
  have hblock : true = u.current.isSome := by
    rw [← h.block, hstate]
    rfl
  have hput := putBE_appended [0, 0, 0, 0] l.messageWriter
  simp only [openMessage, setState, startMessage, onWriter, wp_bind, wp_modify, wp_zoom, wp_get, wp_pure]
  apply wp_mono hput
  · rintro - w' ⟨hw', hend⟩
    have hptr : w'.dataPtr = l.messageWriter.dataPtr + 4 := hw'.dataPtr
    have hlimit : w'.dataEnd = l.messageWriter.dataEnd := by rw [hw'.rest]
    have hfirst : w'.bufferStart = l.messageWriter.bufferStart := by rw [hw'.rest]
    have hfour : l.messageWriter.dataPtr + 4 - 4 = l.messageWriter.dataPtr := by omega
    refine ⟨⟨⟨rfl, hblock, ?_, ?_, ?_, ?_, h.connected, h.outputClosed, h.interruption, ?_⟩, rfl,
      ⟨rfl, rfl, hlimit, rfl, rfl⟩⟩, hend.trans hlimit.ge⟩
    · exact h.writePtr.trans hfirst.symm
    · change w'.bufferStart ≤ l.messageWriter.dataPtr + 4 - 4
      rw [hfour, hfirst]
      exact hbase
    · change l.ioStream.handed ++ slice w'.mem l.writePtr (l.messageWriter.dataPtr + 4 - 4) = _
      rw [hfour, ← huploaded]
      congr 1
      exact slice_congr fun address _ hlt ↦ hw'.before address hlt
    · intro _
      refine ⟨?_, hptr.ge, ?_, ?_, ?_⟩
      · change w'.bufferStart + 4 ≤ l.messageWriter.dataPtr + 4
        omega
      · intro level hlevel
        exact absurd hlevel (Nat.not_lt_zero level)
      · intro point hpoint
        exact absurd hpoint List.not_mem_nil
      · change l.messageWriter.dataPtr + 4 ≤ w'.dataEnd
        omega
    · change w'.dataEnd = w'.bufferStart + _
      rw [hlimit, hfirst]
      exact h.dataEnd
  · exact fun _ _ hover ↦ hover

/-- The header of a message is written into the open message. -/
theorem writeHeader_spec (h : Refines request l u) (hstate : l.state = .messageBody)
    (remoteMessageTypeId remoteEntityId timestamp : ℕ) :
    wp (writeHeader remoteMessageTypeId remoteEntityId timestamp)
      (fun _ l' ↦ StillOpen request l l' u ∧ (InBuffer l → InBuffer l'))
      (fun _ l' ↦ StillOpen request l l' u) l := by
  -- each part is a store of a word into the message that is open by then
  have hpart : ∀ {first : TickLoaderImpl} (data : List UInt8) (size : ℕ), StillOpen request l first u →
      wp (onWriter (putBE data size))
        (fun _ last ↦ StillOpen request l last u ∧ (InBuffer first → InBuffer last))
        (fun _ last ↦ StillOpen request l last u) first := by
    intro first data size hfirst
    apply wp_mono (onWriter_open hfirst.refines hfirst.state
      (putBE_written (hfirst.refines.message hfirst.state) data size))
    · rintro - last ⟨hlast, hin⟩
      exact ⟨hfirst.trans hlast, hin⟩
    · intro error last hlast
      exact hfirst.trans hlast
  have hlast : ∀ {first : TickLoaderImpl}, StillOpen request l first u → (InBuffer l → InBuffer first) →
      wp (onWriter (putByte (UInt8.ofNat remoteMessageTypeId)))
        (fun _ last ↦ StillOpen request l last u ∧ (InBuffer l → InBuffer last))
        (fun _ last ↦ StillOpen request l last u) first := by
    intro first hfirst hin
    apply wp_mono (hpart _ _ hfirst)
    · rintro - last ⟨hlast, hin'⟩
      exact ⟨hlast, fun hl ↦ hin' (hin hl)⟩
    · exact fun _ _ hlast ↦ hlast
  have hopen : StillOpen request l l u := ⟨h, hstate, Same.refl l⟩
  unfold writeHeader
  rw [wp_bind]
  apply wp_mono (hpart _ _ hopen)
  · rintro - first ⟨hfirst, hin⟩
    rw [wp_bind, wp_get]
    by_cases hlong : first.useEntityId32 = true
    · rw [if_pos hlong, wp_bind]
      apply wp_mono (hpart _ _ hfirst)
      · rintro - second ⟨hsecond, hin'⟩
        rw [wp_bind]
        apply wp_mono (hpart _ _ hsecond)
        · rintro - third ⟨hthird, hin''⟩
          exact hlast hthird fun hl ↦ hin'' (hin' (hin hl))
        · exact fun _ _ hthird ↦ hthird
      · exact fun _ _ hsecond ↦ hsecond
    · rw [if_neg hlong]
      by_cases hbig : 0x8000 ≤ remoteEntityId
      · rw [if_pos hbig]
        exact hfirst
      · rw [if_neg hbig, wp_bind]
        apply wp_mono (hpart _ _ hfirst)
        · rintro - second ⟨hsecond, hin'⟩
          exact hlast hsecond fun hl ↦ hin' (hin hl)
        · exact fun _ _ hsecond ↦ hsecond
  · exact fun _ _ hfirst ↦ hfirst

theorem nextInternal_spec (h : Refines request l u) (hworking : l.interruption = .working)
    (hbounded : l.state = .messageBody → Bounded l) (shouldCommit : Bool)
    (remoteMessageTypeId remoteEntityId timestamp : ℕ) :
    wp (nextInternal shouldCommit remoteMessageTypeId remoteEntityId timestamp)
      (fun _ l' ↦ ∃ u', Moved request (l.endedIf shouldCommit) l l' u u' ∧ l'.state = .messageBody ∧
        InBuffer l')
      (fun _ l' ↦ CanOpen shouldCommit l →
        ∃ bodies u', (bodies = [] ∨ bodies = l.endedIf shouldCommit) ∧ Moved request bodies l l' u u')
      l := by
  unfold nextInternal
  rw [wp_bind]
  apply wp_mono (leaveMessage_spec h hbounded shouldCommit)
  · rintro - left ⟨u', hleft, hstate, hptr, -, hended⟩
    rw [wp_bind, checkWriterInterruption_spec (hleft.same.interruption.trans hworking), wp_bind]
    apply wp_mono (openMessage_spec hleft.refines hstate)
    · rintro - opened ⟨hopened, hin⟩
      apply wp_mono (writeHeader_spec hopened.refines hopened.state _ _ _)
      · rintro - last ⟨hlast, hin'⟩
        have hmoved := hleft.trans (hopened.trans hlast).moved
        rw [List.append_nil] at hmoved
        exact ⟨u', hmoved, hlast.state, hin' hin⟩
      · intro error last hlast _
        have hmoved := hleft.trans (hopened.trans hlast).moved
        rw [List.append_nil] at hmoved
        exact ⟨_, u', Or.inr rfl, hmoved⟩
    · intro error last hover hcan
      have hroom := hcan.room hended
      rw [hptr, hleft.same.dataEnd] at hover
      exact absurd hroom hover
  · intro error left hleft hcan
    exact ⟨[], u, Or.inl rfl, hleft hcan⟩

end DxApi.Loader
