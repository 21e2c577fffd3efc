import DxApi.Net.TCP
import DxApi.Writer.DataWriter

/-!
# The loader

`TickLoaderImpl` writes an upload into the buffer of its message writer and hands the buffer to the
connection when enough has gathered. A client calls it from one thread; what the server sends back
meanwhile, and the loader manager that reads it, are left out, so that the loader is interrupted by
its own `finish` only.
-/

namespace DxApi.Loader

open Exec ByteMemory ByteOrder Writer Net

/-! ## Data -/

/-- `INSTRUMENT_BLOCK_ID`. -/
def instrumentBlockId : UInt8 := 2

/-- `MESSAGE_BLOCK_ID`. -/
def messageBlockId : UInt8 := 3

/-- `TERMINATOR_BLOCK_ID`. -/
def terminatorBlockId : UInt8 := 5

/-- `MESSAGE_BLOCK_TERMINATOR_RECORD`. -/
def messageBlockTerminatorRecord : ℕ := 0xFFFFFFFF

/-- `MAX_MESSAGE_SIZE`. -/
def maxMessageSize : ℕ := 0x400000

/-- `TickLoaderImpl::State`; `WRITING` is the same as `NOT_IN_MESSAGE_BLOCK`. -/
inductive State
  | notInitialized
  | finishedWriting
  | notInMessageBlock
  | messageStart
  | messageBody
  deriving DecidableEq, Repr

namespace State

/-- `isWriting`. -/
def isWriting : State → Bool
  | notInMessageBlock | messageStart | messageBody => true
  | notInitialized | finishedWriting => false

/-- `isWritingMessage`. -/
def isWritingMessage : State → Bool
  | messageStart | messageBody => true
  | notInitialized | finishedWriting | notInMessageBlock => false

end State

/-- `TickLoaderNs::Interruption`. -/
inductive Interruption
  | working
  | stopping
  | clientFinished
  | serverFinishedOk
  | error
  | serverFinishedError
  | serverDisconnected
  | ioError
  deriving DecidableEq, Repr

/-- `interruption_ <= STOPPING`. -/
def Interruption.atMostStopping : Interruption → Bool
  | working | stopping => true
  | _ => false

/-- Why a call on a loader throws. -/
inductive LoadError
  | writer (error : WriteError)
  | stream (exception : IOStreamException)
  | unknownMessageType (typeName : List UInt8)
  | unknownUserType (typeId : ℕ)
  | unregisteredEntity (entityId : ℕ)
  | entityIdTooBig (entityId : ℕ)
  | unknownState
  /-- `TickLoaderInterruptedException` or `TickLoaderClosedException`. -/
  | interrupted
  | closed
  | noMessageTypes
  | incompatibleVersion (version : ℤ)
  | handshakeFailed
  deriving DecidableEq, Repr

/-- The data members of `TickLoaderImpl` that writing uses. The instruments are listed by id; the
pointer to the stream is null when the loader is not connected. -/
structure TickLoaderImpl where
  messageWriter : DataWriter
  ioStream : IOStreamTCP
  connected : Bool
  state : State
  interruption : Interruption
  writePtr : ℤ
  messageStart : ℤ
  minChunkSize : ℤ
  useEntityId32 : Bool
  nMsgWritten : ℕ
  nMsgCancelled : ℕ
  instruments : List (List UInt8)
  typeIndex : List UInt8 → Option ℕ
  typeIdLocal2Remote : ℕ → Option ℕ

/-- A member function of the loader. -/
abbrev LoaderM (α : Type) := EStateM LoadError TickLoaderImpl α

/-- A call on `messageWriter_`. -/
def onWriter {α : Type} (program : WriterM α) : LoaderM α :=
  zoom TickLoaderImpl.messageWriter (fun w l ↦ { l with messageWriter := w }) LoadError.writer program

/-- A call on `ioStream_`. -/
def onStream {α : Type} (program : EStateM IOStreamException IOStreamTCP α) : LoaderM α :=
  zoom TickLoaderImpl.ioStream (fun s l ↦ { l with ioStream := s }) LoadError.stream program

def setState (state : State) : LoaderM Unit := modify fun l ↦ { l with state := state }

/-! ## Output -/

/-- `transmitBuffer`: what `write` returns is not looked at. -/
def transmitBuffer : LoaderM Unit := do
  let l ← get
  if l.connected then
    let _ ← onStream
      (IOStreamTCP.write (slice l.messageWriter.mem l.writePtr l.messageWriter.dataPtr))

/-- `resetPointers`. -/
def resetPointers : LoaderM Unit :=
  modify fun l ↦ { l with
    messageWriter := { l.messageWriter with dataPtr := l.messageWriter.bufferStart }
    writePtr := l.messageWriter.bufferStart }

/-- `flushOutputInternal`, the same for `flushOutput` and `flushOutputMsg`. -/
def flushOutput : LoaderM Unit := do
  let l ← get
  if l.interruption.atMostStopping then
    transmitBuffer
  resetPointers

/-- `onInterruption` if the loader is interrupted. -/
def checkWriterInterruption : LoaderM Unit := do
  let l ← get
  if l.interruption ≠ .working then
    throw .interrupted

/-! ## Messages and blocks -/

/-- `cancelMessage`. -/
def cancelMessage : LoaderM Unit :=
  modify fun l ↦ { l with
    nMsgCancelled := l.nMsgCancelled + 1
    messageWriter := { l.messageWriter with dataPtr := l.messageStart - 4 } }

/-- The flush at the end of `endMessage`. -/
def flushIfNeeded (dataPtr : ℤ) : LoaderM Unit := do
  let l ← get
  if l.minChunkSize = 0 then
    flushOutput
  else if l.minChunkSize ≤ dataPtr - l.messageWriter.bufferStart then
    flushOutput

/-- The first half of `endMessage`: the message is finished, its length is stored in front, and it is
counted. -/
def completeMessage : LoaderM ℤ := do
  let l ← get
  let messageStart := l.messageStart
  let dataPtr ← onWriter (finishMessage messageStart)
  let messageBodySize := ((dataPtr - messageStart) % 2 ^ 32).toNat
  modify fun l ↦ { l with
    messageWriter := { l.messageWriter with
      mem := store l.messageWriter.mem (messageStart - 4) (bigEndian 4 messageBodySize) }
    nMsgWritten := l.nMsgWritten + 1 }
  return dataPtr

/-- `endMessage`. -/
def endMessage : LoaderM Unit := do
  let dataPtr ← completeMessage
  flushIfNeeded dataPtr
  setState .messageStart

/-- `putUInt32`. -/
def putUInt32 (value : ℕ) : WriterM Unit := putBE (bigEndian 4 value) 4

/-- `putUInt16`: the upper bits are cut off. -/
def putUInt16 (value : ℕ) : WriterM Unit := putBE (bigEndian 2 (value % 2 ^ 16)) 2

/-- `writeMessageBlockEnd`. -/
def writeMessageBlockEnd : LoaderM Unit := onWriter (putUInt32 messageBlockTerminatorRecord)

/-- `endMessageBlockIfNeeded`. -/
def endMessageBlockIfNeeded : LoaderM Unit := do
  let l ← get
  if l.state.isWritingMessage then
    if l.state = .messageBody then
      endMessage
    setState .notInMessageBlock
    writeMessageBlockEnd

/-- `writeInstrumentBlock`. -/
def writeInstrumentBlock (instrumentName : List UInt8) : LoaderM Unit := do
  endMessageBlockIfNeeded
  checkWriterInterruption
  onWriter (putByte instrumentBlockId)
  onWriter (writeUTF8 instrumentName)

/-- `endWriting`. -/
def endWriting : LoaderM Unit := do
  endMessageBlockIfNeeded
  flushOutput
  onWriter (putByte terminatorBlockId)
  setState .finishedWriting

/-- The switch of `nextInternal` over the state: the previous message is committed or cancelled. -/
def leaveMessage (shouldCommit : Bool) : LoaderM Unit := do
  let l ← get
  match l.state with
  | .notInMessageBlock =>
    onWriter (putByte messageBlockId)
    setState .messageStart
  | .messageBody =>
    if shouldCommit then
      endMessage
    else
      cancelMessage
      setState .messageStart
  | .messageStart => pure ()
  | .notInitialized | .finishedWriting =>
    checkWriterInterruption
    throw .unknownState

/-- A message is opened: its length is left open, and its start is kept. -/
def openMessage : LoaderM Unit := do
  setState .messageBody
  let messageStart ← onWriter startMessage
  modify fun l ↦ { l with messageStart := messageStart }

/-- The header of a message: time, entity and type. -/
def writeHeader (remoteMessageTypeId remoteEntityId timestamp : ℕ) : LoaderM Unit := do
  onWriter (putBE (bigEndian 8 (timestamp % 2 ^ 64)) 8)
  let l ← get
  if l.useEntityId32 then
    onWriter (putUInt16 (remoteEntityId / 2 ^ 16 + 0x8000))
    onWriter (putUInt16 remoteEntityId)
  else if 0x8000 ≤ remoteEntityId then
    throw (.entityIdTooBig (remoteEntityId % 2 ^ 16))
  else
    onWriter (putUInt16 remoteEntityId)
  onWriter (putByte (UInt8.ofNat remoteMessageTypeId))

/-- `nextInternal`; the template argument is `shouldCommit`. -/
def nextInternal (shouldCommit : Bool) (remoteMessageTypeId remoteEntityId timestamp : ℕ) :
    LoaderM Unit := do
  leaveMessage shouldCommit
  checkWriterInterruption
  openMessage
  writeHeader remoteMessageTypeId remoteEntityId timestamp

/-! ## The interface -/

/-- `getInstrumentId`: the name is registered before its record is written. -/
def getInstrumentId (instr : List UInt8) : LoaderM ℕ := do
  let l ← get
  if instr ∈ l.instruments then
    return l.instruments.idxOf instr
  else
    let entityId := l.instruments.length
    set { l with instruments := l.instruments ++ [instr] }
    writeInstrumentBlock instr
    return entityId

/-- `getInstrumentId` would register the name. -/
def TickLoaderImpl.IsNew (instr : List UInt8) (l : TickLoaderImpl) : Prop := instr ∉ l.instruments

instance (instr : List UInt8) (l : TickLoaderImpl) : Decidable (l.IsNew instr) :=
  inferInstanceAs (Decidable (instr ∉ l.instruments))

/-- `getMessageDescriptorId` of a type name. -/
def getMessageDescriptorIdOfName (typeName : List UInt8) : LoaderM ℕ := do
  let l ← get
  match l.typeIndex typeName with
  | some messageTypeId => return messageTypeId
  | none => throw (.unknownMessageType typeName)

/-- `getMessageDescriptorId` of a type id of the user. -/
def getMessageDescriptorId (typeId : ℕ) : LoaderM ℕ := do
  let l ← get
  match l.typeIdLocal2Remote typeId with
  | some messageTypeId => return messageTypeId
  | none => throw (.unknownUserType typeId)

/-- `next` and `beginMessage` with an entity id; `next` commits. -/
def beginMessageOfEntity (userTypeId entityId timestamp : ℕ) (shouldCommit : Bool) : LoaderM Unit := do
  let typeId ← getMessageDescriptorId userTypeId
  let l ← get
  if l.instruments.length ≤ entityId then
    throw (.unregisteredEntity entityId)
  nextInternal shouldCommit typeId entityId timestamp

/-- `next` and `beginMessage` with a symbol; `next` commits. -/
def beginMessage (userTypeId : ℕ) (symbolName : List UInt8) (timestamp : ℕ) (shouldCommit : Bool) :
    LoaderM Unit := do
  let entityId ← getInstrumentId symbolName
  let typeId ← getMessageDescriptorId userTypeId
  nextInternal shouldCommit typeId entityId timestamp

/-- `next` with a type name and a symbol. -/
def nextOfType (typeName symbolName : List UInt8) (timestamp : ℕ) : LoaderM Unit := do
  let entityId ← getInstrumentId symbolName
  let typeId ← getMessageDescriptorIdOfName typeName
  nextInternal true typeId entityId timestamp

/-- `commitMessage` and `send`. -/
def commitMessage : LoaderM Unit := do
  let l ← get
  if l.state = .messageBody then
    endMessage

/-- `flush`. -/
def flush : LoaderM Unit := do
  let l ← get
  if l.state = .messageStart then
    flushOutput

/-- What a client writes through the writer that `next` returned. Every field of a fixed size is a
store of a word of which only the first `size` bytes count. -/
inductive FieldWrite
  | word (stored : List UInt8) (size : ℕ)
  | utf8 (data : List UInt8)
  | arrayStart (nItems : ℕ)
  | arrayEnd
  | objectStart (typeIndex : UInt8)
  | objectEnd

namespace FieldWrite

def exec : FieldWrite → WriterM Unit
  | word stored size => putBE stored size
  | utf8 data => writeUTF8 data
  | arrayStart nItems => writeArrayStart nItems
  | arrayEnd => writeArrayEnd
  | objectStart typeIndex => writeObjectStart typeIndex
  | objectEnd => writeObjectEnd

end FieldWrite

/-- The calls of a client between `open` and `finish`. -/
inductive Call
  | next (userTypeId : ℕ) (symbolName : List UInt8) (timestamp : ℕ)
  | nextOfEntity (userTypeId entityId timestamp : ℕ)
  | nextOfType (typeName symbolName : List UInt8) (timestamp : ℕ)
  | beginMessage (userTypeId : ℕ) (symbolName : List UInt8) (timestamp : ℕ) (commitPrevious : Bool)
  | beginMessageOfEntity (userTypeId entityId timestamp : ℕ) (commitPrevious : Bool)
  | field (write : FieldWrite)
  | commitMessage
  | send
  | flush
  | getInstrumentId (instr : List UInt8)

namespace Call

def exec : Call → LoaderM Unit
  | next userTypeId symbolName timestamp => Loader.beginMessage userTypeId symbolName timestamp true
  | nextOfEntity userTypeId entityId timestamp =>
    Loader.beginMessageOfEntity userTypeId entityId timestamp true
  | nextOfType typeName symbolName timestamp => Loader.nextOfType typeName symbolName timestamp
  | beginMessage userTypeId symbolName timestamp commitPrevious =>
    Loader.beginMessage userTypeId symbolName timestamp commitPrevious
  | beginMessageOfEntity userTypeId entityId timestamp commitPrevious =>
    Loader.beginMessageOfEntity userTypeId entityId timestamp commitPrevious
  | field write => onWriter write.exec
  | commitMessage => Loader.commitMessage
  | send => Loader.commitMessage
  | flush => Loader.flush
  | getInstrumentId instr => do
    let _ ← Loader.getInstrumentId instr

end Call

/-! ## Finishing -/

/-- `cleanup`: the connection is closed. -/
def cleanup : LoaderM Unit := modify fun l ↦ { l with
  connected := false
  interruption := if l.interruption = .working then .clientFinished else l.interruption }

/-- The message that is still open at `finish` is cancelled. -/
def cancelOpenMessage : LoaderM Unit := do
  let l ← get
  if l.state = .messageBody then
    cancelMessage
    setState .messageStart

/-- The rest of the upload is written, unless the output is closed already. -/
def closeOutput : LoaderM Unit := do
  let l ← get
  if l.connected ∧ l.ioStream.outputClosed = false then
    endWriting
    flushOutput
    modify fun l ↦ { l with ioStream := l.ioStream.closeOutput }

/-- `finishInternal` without its exception handlers. -/
def finishWriting : LoaderM Unit := do
  modify fun l ↦ { l with interruption := .stopping }
  cancelOpenMessage
  closeOutput
  setState .finishedWriting
  cleanup

/-- `finishInternal`. -/
def finish : LoaderM Unit := do
  let l ← get
  if l.state.isWriting then
    onException finishWriting fun
      | .stream _ => do
        modify fun l ↦ { l with state := .finishedWriting, interruption := .serverDisconnected }
        cleanup
        return .closed
      | error => do
        modify fun l ↦ { l with state := .finishedWriting, interruption := .error }
        cleanup
        return error
  else
    cleanup

/-! ## Opening -/

/-- The loader as `open` leaves it: the requests that open the upload have been handed to the
stream, and the buffer is empty. -/
structure Opened (l : TickLoaderImpl) : Prop where
  state : l.state = .notInMessageBlock
  interruption : l.interruption = .working
  connected : l.connected = true
  outputClosed : l.ioStream.outputClosed = false
  instruments : l.instruments = []
  dataPtr : l.messageWriter.dataPtr = l.messageWriter.bufferStart
  writePtr : l.writePtr = l.messageWriter.bufferStart
  /-- `setBuffer(allocPtr, bufPtr + 8, bufPtr + MAX_MESSAGE_SIZE + 64)`. -/
  dataEnd : l.messageWriter.dataEnd = l.messageWriter.bufferStart + (maxMessageSize + 56 : ℕ)

end DxApi.Loader
