import DxApi.Loader.TickLoader

/-!
# What the calls of a client leave alone

Before `finish`, the calls of a client change the writer, the message that is open, the list of
instruments and the counters of a loader, and reach its connection by `write` only. An invariant that
none of these changes breaks is kept by every call.
-/

namespace DxApi.Loader

open Exec Writer Net TickLoaderImpl

/-- An invariant that the changes inside of the calls do not break. -/
structure Untouched (inv : TickLoaderImpl → Prop) : Prop where
  messageWriter : ∀ l w, inv l → inv { l with messageWriter := w }
  state : ∀ l state, inv l → inv { l with state := state }
  messageStart : ∀ l messageStart, inv l → inv { l with messageStart := messageStart }
  writePtr : ∀ l writePtr, inv l → inv { l with writePtr := writePtr }
  instruments : ∀ l instruments, inv l → inv { l with instruments := instruments }
  counted : ∀ l, inv l → inv { l with nMsgWritten := l.nMsgWritten + 1 }
  cancelled : ∀ l, inv l → inv { l with nMsgCancelled := l.nMsgCancelled + 1 }
  write : ∀ data, Preserves inv (onStream (IOStreamTCP.write data))

variable {inv : TickLoaderImpl → Prop}

theorem preserves_checkWriterInterruption : Preserves inv checkWriterInterruption :=
  preserves_get.bind fun _ ↦ (preserves_throw _).ite (preserves_pure _)

theorem preserves_getMessageDescriptorId (typeId : ℕ) : Preserves inv (getMessageDescriptorId typeId) := by
  apply preserves_get.bind
  intro l
  cases l.typeIdLocal2Remote typeId with
  | none => exact preserves_throw _
  | some messageTypeId => exact preserves_pure _

section

variable (h : Untouched inv)

include h

theorem preserves_onWriter {α : Type} (program : WriterM α) : Preserves inv (onWriter program) :=
  preserves_zoom program fun w l hl ↦ h.messageWriter l w hl

theorem preserves_setState (state : State) : Preserves inv (setState state) :=
  preserves_modify fun l hl ↦ h.state l state hl

theorem preserves_resetPointers : Preserves inv resetPointers :=
  preserves_modify fun l hl ↦ h.writePtr _ _ (h.messageWriter l _ hl)

theorem preserves_cancelMessage : Preserves inv cancelMessage :=
  preserves_modify fun l hl ↦ h.messageWriter _ _ (h.cancelled l hl)

theorem preserves_flushOutput : Preserves inv flushOutput := by
  have htransmit : Preserves inv transmitBuffer := by
    apply preserves_get.bind
    intro l
    exact ((h.write _).bind fun _ ↦ preserves_pure _).ite (preserves_pure _)
  apply preserves_get.bind
  intro l
  exact (htransmit.bind fun _ ↦ preserves_resetPointers h).ite (preserves_resetPointers h)

theorem preserves_flushIfNeeded (dataPtr : ℤ) : Preserves inv (flushIfNeeded dataPtr) := by
  apply preserves_get.bind
  intro l
  exact (preserves_flushOutput h).ite ((preserves_flushOutput h).ite (preserves_pure _))

theorem preserves_endMessage : Preserves inv endMessage := by
  have hcomplete : Preserves inv completeMessage := by
    apply preserves_get.bind
    intro l
    apply (preserves_onWriter h _).bind
    intro dataPtr
    apply Preserves.bind
    · exact preserves_modify fun l hl ↦ h.messageWriter _ _ (h.counted l hl)
    · exact fun _ ↦ preserves_pure _
  exact hcomplete.bind fun dataPtr ↦ (preserves_flushIfNeeded h dataPtr).bind fun _ ↦ preserves_setState h _

theorem preserves_leaveBlock : Preserves inv (do setState .notInMessageBlock; writeMessageBlockEnd) :=
  (preserves_setState h _).bind fun _ ↦ preserves_onWriter h _

theorem preserves_endMessageBlockIfNeeded : Preserves inv endMessageBlockIfNeeded := by
  have hleave := preserves_leaveBlock h
  apply preserves_get.bind
  intro l
  exact (((preserves_endMessage h).bind fun _ ↦ hleave).ite hleave).ite (preserves_pure _)

theorem preserves_instrumentRecord (instr : List UInt8) : Preserves inv (do
    checkWriterInterruption
    onWriter (putByte instrumentBlockId)
    onWriter (writeUTF8 instr)) :=
  preserves_checkWriterInterruption.bind fun _ ↦
    (preserves_onWriter h _).bind fun _ ↦ preserves_onWriter h _

theorem preserves_getInstrumentId (instr : List UInt8) : Preserves inv (getInstrumentId instr) := by
  have hblock : Preserves inv (writeInstrumentBlock instr) :=
    (preserves_endMessageBlockIfNeeded h).bind fun _ ↦ preserves_instrumentRecord h instr
  intro l hl
  rw [getInstrumentId, wp_bind, wp_get, wp_ite]
  constructor
  · exact fun _ ↦ hl
  · intro _
    rw [wp_bind, wp_set]
    exact (hblock.bind fun _ ↦ preserves_pure _) _ (h.instruments l _ hl)

theorem preserves_leaveMessage (shouldCommit : Bool) : Preserves inv (leaveMessage shouldCommit) := by
  apply preserves_get.bind
  intro l
  cases l.state with
  | notInMessageBlock => exact (preserves_onWriter h _).bind fun _ ↦ preserves_setState h _
  | messageBody =>
    exact (preserves_endMessage h).ite ((preserves_cancelMessage h).bind fun _ ↦ preserves_setState h _)
  | messageStart => exact preserves_pure _
  | notInitialized | finishedWriting =>
    exact preserves_checkWriterInterruption.bind fun _ ↦ preserves_throw _

theorem preserves_openMessage : Preserves inv openMessage := by
  apply (preserves_setState h _).bind
  intro _
  apply (preserves_onWriter h _).bind
  intro messageStart
  exact preserves_modify fun l hl ↦ h.messageStart l messageStart hl

theorem preserves_writeHeader (remoteMessageTypeId remoteEntityId timestamp : ℕ) :
    Preserves inv (writeHeader remoteMessageTypeId remoteEntityId timestamp) := by
  apply (preserves_onWriter h _).bind
  intro _
  apply preserves_get.bind
  intro l
  apply Preserves.ite
  · exact (preserves_onWriter h _).bind fun _ ↦ (preserves_onWriter h _).bind fun _ ↦ preserves_onWriter h _
  · exact (preserves_throw _).ite ((preserves_onWriter h _).bind fun _ ↦ preserves_onWriter h _)

theorem preserves_nextInternal (shouldCommit : Bool) (remoteMessageTypeId remoteEntityId timestamp : ℕ) :
    Preserves inv (nextInternal shouldCommit remoteMessageTypeId remoteEntityId timestamp) :=
  (preserves_leaveMessage h _).bind fun _ ↦ preserves_checkWriterInterruption.bind fun _ ↦
    (preserves_openMessage h).bind fun _ ↦ preserves_writeHeader h _ _ _

theorem preserves_beginMessage (userTypeId : ℕ) (symbolName : List UInt8) (timestamp : ℕ)
    (shouldCommit : Bool) : Preserves inv (beginMessage userTypeId symbolName timestamp shouldCommit) :=
  (preserves_getInstrumentId h _).bind fun _ ↦ (preserves_getMessageDescriptorId _).bind fun _ ↦
    preserves_nextInternal h _ _ _ _

theorem preserves_beginMessageOfEntity (userTypeId entityId timestamp : ℕ) (shouldCommit : Bool) :
    Preserves inv (beginMessageOfEntity userTypeId entityId timestamp shouldCommit) := by
  apply (preserves_getMessageDescriptorId _).bind
  intro typeId
  apply preserves_get.bind
  intro l
  exact ((preserves_throw _).bind fun _ ↦ preserves_nextInternal h _ _ _ _).ite
    (preserves_nextInternal h _ _ _ _)

theorem preserves_nextOfType (typeName symbolName : List UInt8) (timestamp : ℕ) :
    Preserves inv (nextOfType typeName symbolName timestamp) := by
  apply (preserves_getInstrumentId h _).bind
  intro entityId
  apply Preserves.bind
  · apply preserves_get.bind
    intro l
    cases l.typeIndex typeName with
    | none => exact preserves_throw _
    | some messageTypeId => exact preserves_pure _
  · exact fun _ ↦ preserves_nextInternal h _ _ _ _

theorem preserves_commitMessage : Preserves inv commitMessage :=
  preserves_get.bind fun _ ↦ (preserves_endMessage h).ite (preserves_pure _)

/-- Every call keeps the invariant, whether it returns or throws. -/
theorem Call.preserves_exec (call : Call) : Preserves inv call.exec := by
  cases call with
  | next userTypeId symbolName timestamp => exact preserves_beginMessage h _ _ _ _
  | nextOfEntity userTypeId entityId timestamp => exact preserves_beginMessageOfEntity h _ _ _ _
  | nextOfType typeName symbolName timestamp => exact preserves_nextOfType h _ _ _
  | beginMessage userTypeId symbolName timestamp commitPrevious => exact preserves_beginMessage h _ _ _ _
  | beginMessageOfEntity userTypeId entityId timestamp commitPrevious =>
    exact preserves_beginMessageOfEntity h _ _ _ _
  | field write => exact preserves_onWriter h _
  | commitMessage => exact preserves_commitMessage h
  | send => exact preserves_commitMessage h
  | flush => exact preserves_get.bind fun _ ↦ (preserves_flushOutput h).ite (preserves_pure _)
  | getInstrumentId instr => exact (preserves_getInstrumentId h _).bind fun _ ↦ preserves_pure _

end

end DxApi.Loader
