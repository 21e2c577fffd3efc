import DxApi.Cursor.TickCursor
import DxApi.Reader.Loads

/-!
# Reading a cursor

The server sends a cursor a sequence of records, each with the id of its kind, and message records in
blocks. `next` reads on until it finds a message that is not skipped; with `nonBlocking` it asks
first whether anything is there, and gives up at a ping or at the end of a block.

What `next` does before it catches an exception is modelled: every exception ends the cursor.
-/

namespace DxApi.Cursor.Reading

open Exec Reader

/-! ## Data -/

/-- Why `next` throws. -/
inductive NextError
  | reader (error : ReadError)
  | cursor (error : CursorError)
  | incorrectMessageSize (messageSize : ℕ)
  | entityIdTooBig (entityId : ℕ)
  | messageTypeUnreadable (descriptorId : ℕ)
  | reservedStreamId
  | serverError (code : ℤ) (text : Name)
  | cursorIdChanged (id cursorId : ℤ)
  | invalidBlockMarker (id : ℕ)
  | interrupted
  deriving DecidableEq, Repr

/-- `MessageHeader`. -/
structure MessageHeader where
  length : ℕ
  timestamp : ℤ
  entityId : ℕ
  typeId : ℕ
  streamId : ℤ
  deriving DecidableEq, Repr

/-- The data members of `TickCursorImpl` that reading uses, its reader and its filters. -/
structure ReadingCursor where
  reader : DataReader
  cursor : TickCursorImpl
  useEntityId32 : Bool
  isWithinMessageBlock : Bool
  isIdle : Bool
  readMessageDone : Bool
  lastTimestamp : ℤ

abbrev ReadingM (α : Type) := EStateM NextError ReadingCursor α

def onReader {α : Type} (program : ReaderM α) : ReadingM α :=
  zoom ReadingCursor.reader (fun r c ↦ { c with reader := r }) .reader program

def onCursor {α : Type} (program : CursorM α) : ReadingM α :=
  zoom ReadingCursor.cursor (fun cursor c ↦ { c with cursor := cursor }) .cursor program

/-! ## Constants -/

def typeBlockId : ℕ := 1
def instrumentBlockId : ℕ := 2
def messageBlockId : ℕ := 3
def errorBlockId : ℕ := 4
def terminatorBlockId : ℕ := 5
def pingBlockId : ℕ := 6
def cursorBlockId : ℕ := 7
def commandBlockId : ℕ := 8
def streamBlockId : ℕ := 9

/-- `MESSAGE_BLOCK_TERMINATOR_RECORD`. -/
def messageBlockTerminatorRecord : ℕ := 0xFFFFFFFF

/-- `CURSOR_MESSAGE_HEADER_SIZE_EID16`. -/
def cursorMessageHeaderSizeEid16 : ℕ := 8 + 2 + 1 + 1

/-- `CURSOR_MESSAGE_HEADER_SIZE_EID32`. -/
def cursorMessageHeaderSizeEid32 : ℕ := 8 + 4 + 1 + 1

/-- `MAX_MESSAGE_SIZE`. -/
def maxMessageSize : ℕ := 0x400000

/-- The byte of `emptyStreamId`. -/
def emptyStreamByte : ℕ := 0xFF

/-! ## Records -/

variable (cls : ReaderClass)

/-- `readEntityId`: 16 bits, or 31 bits when the highest one is set. -/
def readEntityId (isChecked : Bool) : ReadingM ℕ := do
  let entityId ← onReader (getUInt16 cls)
  if 0x8000 ≤ entityId then
    let c ← get
    if isChecked ∧ ¬ c.useEntityId32 then
      throw (.entityIdTooBig entityId)
    else
      -- the first word was extended to 32 bits with its sign
      let low ← onReader (getUInt16 cls)
      return ((entityId + 0xFFFF0000) * 2 ^ 16 + low + 0x80000000) % 2 ^ 32
  else
    return entityId

/-- `readMessageType`; `fromXML` gives the names in the text of a descriptor. -/
def readMessageType (fromXML : Name → Option (Name × Name)) : ReadingM Unit := do
  let descriptorId ← onReader (getUInt16 cls)
  let text ← onReader (getUTF8 cls)
  match text with
  | none => throw (.messageTypeUnreadable descriptorId)
  | some text => onCursor (Cursor.readMessageType descriptorId (fromXML text))

/-- `readEntity`: a null name is empty. -/
def readEntity : ReadingM Unit := do
  let symbolId ← readEntityId cls true
  let symbol ← onReader (getUTF8 cls)
  onCursor (Cursor.readEntity symbolId (symbol.getD []))

/-- `readStreamKey`. -/
def readStreamKey : ReadingM Unit := do
  let streamId ← onReader (getByte cls)
  if streamId = emptyStreamByte then
    throw .reservedStreamId
  else
    let newStreamKey ← onReader (getUTF8 cls)
    onCursor (Cursor.readStreamKey streamId (newStreamKey.getD []))

/-- `ERROR_BLOCK_ID` in `readNextRecord`. -/
def readServerError : ReadingM Unit := do
  let code ← onReader (getByte cls)
  let text ← onReader (getUTF8 cls)
  throw (.serverError (signed 1 code) (text.getD []))

/-- `CURSOR_BLOCK_ID` in `readNextRecord`. -/
def readCursorId : ReadingM Unit := do
  let id ← onReader (getInt64 cls)
  let c ← get
  if c.cursor.cursorId ≠ -1 ∧ c.cursor.cursorId ≠ id then
    throw (.cursorIdChanged id c.cursor.cursorId)
  else
    set { c with cursor := { c.cursor with cursorId := id } }

/-- `COMMAND_BLOCK_ID` in `readNextRecord`. -/
def readCommand : ReadingM Unit := do
  let cmdId ← onReader (getInt64 cls)
  onCursor (Cursor.readCommand cmdId)

/-- `readNextRecord`: false when the cursor has ended. -/
def readNextRecord (fromXML : Name → Option (Name × Name)) : ReadingM Bool := do
  let id ← onReader (getByte cls)
  modify fun c ↦ { c with isIdle := false }
  if id = typeBlockId then
    readMessageType cls fromXML
    return true
  else if id = instrumentBlockId then
    readEntity cls
    return true
  else if id = streamBlockId then
    readStreamKey cls
    return true
  else if id = messageBlockId then
    modify fun c ↦ { c with isWithinMessageBlock := true }
    return true
  else if id = errorBlockId then
    readServerError cls
    return true
  else if id = terminatorBlockId then
    onCursor readTerminator
  else if id = pingBlockId then
    modify fun c ↦ { c with isIdle := true }
    return true
  else if id = cursorBlockId then
    readCursorId cls
    return true
  else if id = commandBlockId then
    readCommand cls
    return true
  else
    throw (.invalidBlockMarker id)

/-! ## Messages -/

/-- What a round of the loop in `readNextMessageInBlock` finds. -/
inductive BlockRound
  | terminated
  | skipped
  | accepted (msg : MessageHeader)
  deriving DecidableEq, Repr

/-- The stream id: 255 stands for -1. -/
def streamIdOf (byte : ℕ) : ℤ := ((byte + 1) % 0x100 : ℕ) - 1

/-- The header of a message, after its length. -/
def readHeader (messageSize : ℕ) : ReadingM MessageHeader := do
  let timestamp ← onReader (getInt64 cls)
  modify fun c ↦ { c with lastTimestamp := timestamp }
  let entityId ← readEntityId cls false
  let typeId ← onReader (getByte cls)
  let streamByte ← onReader (getByte cls)
  return ⟨messageSize, timestamp, entityId, typeId, streamIdOf streamByte⟩

/-- The body of the loop in `readNextMessageInBlock`. -/
def readMessageInBlock : ReadingM BlockRound := do
  let messageSize ← onReader (getUInt32 cls)
  if messageSize = messageBlockTerminatorRecord then
    modify fun c ↦ { c with isWithinMessageBlock := false }
    return .terminated
  else
    onReader (setMessageSize messageSize)
    if ¬ (cursorMessageHeaderSizeEid32 ≤ messageSize ∧ messageSize < maxMessageSize + 1) then
      throw (.incorrectMessageSize messageSize)
    else
      let msg ← readHeader cls messageSize
      let isAccepted ← onCursor (filterMessage msg.entityId msg.typeId msg.streamId)
      if isAccepted then
        return .accepted msg
      else
        onReader (nextMessage cls)
        return .skipped

/-- The bytes that are ahead, which bound the rounds of a loop. -/
def bytesAhead (c : ReadingCursor) : ℕ := unread c.reader c.reader.dataPtr

/-- The loop in `readNextMessageInBlock`. -/
def readMessagesInBlock : ℕ → ReadingM (Option MessageHeader)
  | 0 => throw (.reader .diverged)
  | fuel + 1 => do
    match ← readMessageInBlock cls with
    | .terminated => return none
    | .accepted msg => return some msg
    | .skipped => readMessagesInBlock fuel

/-- `readNextMessageInBlock`: nothing at the end of the block. -/
def readNextMessageInBlock : ReadingM (Option MessageHeader) := do
  readMessagesInBlock cls (bytesAhead (← get) + 1)

/-- The last lines of `readNextMessage`: the cursor has ended. -/
def endReading : ReadingM (Option MessageHeader) := do
  modify fun c ↦ { c with cursor := { c.cursor with state := .ended } }
  return none

/-- `readNextMessage` from the label on: blocks and records, one after the other. -/
def readMessages (fromXML : Name → Option (Name × Name)) : ℕ → ReadingM (Option MessageHeader)
  | 0 => throw (.reader .diverged)
  | fuel + 1 => do
    if (← get).isWithinMessageBlock then
      match ← readNextMessageInBlock cls with
      | some msg => return some msg
      | none => readMessages fromXML fuel
    else if ← readNextRecord cls fromXML then
      readMessages fromXML fuel
    else
      endReading

/-- `readNextMessage`. -/
def readNextMessage (fromXML : Name → Option (Name × Name)) : ReadingM (Option MessageHeader) := do
  if (← get).isWithinMessageBlock then
    onReader (nextMessage cls)
  readMessages cls fromXML (bytesAhead (← get) + 1)

/-- The loop of `readNextMessageNonBlock`: records up to a block or a ping. -/
def readRecordsNonBlock (fromXML : Name → Option (Name × Name)) : ℕ → ReadingM (Option MessageHeader)
  | 0 => throw (.reader .diverged)
  | fuel + 1 => do
    if ← readNextRecord cls fromXML then
      let c ← get
      if c.isWithinMessageBlock then
        readNextMessageInBlock cls
      else if c.isIdle then
        return none
      else
        readRecordsNonBlock fromXML fuel
    else
      endReading

/-- `readNextMessageNonBlock`. -/
def readNextMessageNonBlock (fromXML : Name → Option (Name × Name)) : ReadingM (Option MessageHeader) := do
  let c ← get
  if c.isWithinMessageBlock then
    readNextMessageInBlock cls
  else
    readRecordsNonBlock cls fromXML (bytesAhead c + 1)

/-! ## `next` -/

/-- `nBytesAvailable` of the reader. -/
def nBytesAvailable (r : DataReader) : ℕ := ((r.dataEnd - r.dataPtr) % 2 ^ 64).toNat

/-- `nBytesAvailableInStream`, an unsigned number. -/
def nBytesAvailableInStream (r : DataReader) : ℕ := ((r.streamDataEnd - r.dataPtr - 2) % 2 ^ 64).toNat

/-- A cursor that has ended is read on when there is something to be read: false when there is
nothing. -/
def resume (arrived : ℕ) : ReadingM Bool := do
  let c ← get
  if c.cursor.state = .ended then
    if c.cursor.isInterrupted then
      throw .interrupted
    else if ¬ c.cursor.subState.current.isExecutingSubscriptions ∧ nBytesAvailable c.reader = 0 ∧ arrived = 0 then
      return false
    else
      set { c with cursor := { c.cursor with state := .started } }
      return true
  else
    return true

/-- The part of `next` that `nextIfAvailable` has for itself. -/
def nextNonBlocking (fromXML : Name → Option (Name × Name)) (arrived : ℕ) :
    ReadingM (Option MessageHeader) := do
  let c ← get
  if c.isWithinMessageBlock ∧ ¬ c.readMessageDone then
    onReader (nextMessage cls)
    modify fun c ↦ { c with readMessageDone := true }
  let c ← get
  if nBytesAvailableInStream c.reader ≤ 0 ∧ arrived ≤ 0 then
    return none
  else
    modify fun c ↦ { c with readMessageDone := false }
    readNextMessageNonBlock cls fromXML

/-- `next`, when the input stream has `arrived` bytes that were not read from it yet. -/
def next (fromXML : Name → Option (Name × Name)) (isNonBlocking : Bool) (arrived : ℕ) :
    ReadingM (Option MessageHeader) := do
  if ← resume arrived then
    if isNonBlocking then
      nextNonBlocking cls fromXML arrived
    else
      readNextMessage cls fromXML
  else
    return none

end DxApi.Cursor.Reading
