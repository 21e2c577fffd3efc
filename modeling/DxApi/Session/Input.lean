import DxApi.Lib.Decoding
import DxApi.Session.Requests
import DxApi.Session.StreamCache
import DxApi.Session.Synchronous
import DxApi.Xml.LoadStreams

/-!
# The input of the session handler

The thread of the session handler waits for four bytes from the server, reads the message that they announce
and acts on it. A new stream is asked for before the next message is read. Bytes arrive in any portions: only
the first of the reads looks at how many are there.

The thread ends when the server closes the session or the connection, when a token is not known, or when it
is told to stop. The texts of a document are all translated when it is parsed.
-/

namespace DxApi.Session

open Exec ByteOrder Decoding Net

/-! ## The source -/

/-- What is thrown in the thread; `undefined` is a read through `NULL`, which is no exception. -/
inductive ThreadError
  | disconnected
  | stream (error : IOStreamException)
  | runtimeError
  | undefined
  deriving DecidableEq, Repr

/-- The data members of `SessionHandler` that the thread uses. -/
structure HandlerThread where
  handler : SessionHandler
  /-- What the server sends before it closes the connection. -/
  incoming : List UInt8
  cache : SessionCache
  nPropertyRequestsReceived : ℕ
  /-- How often `bufferAllocPtr_`, which is not `NULL`, was freed. -/
  frees : ℕ

namespace HandlerThread

abbrev InputM (α : Type) := EStateM ThreadError (List UInt8) α

abbrev ThreadM (α : Type) := EStateM ThreadError HandlerThread α

/-- What is read from `ioStream_`. -/
def onInput {α : Type} (program : InputM α) : ThreadM α :=
  zoom HandlerThread.incoming (fun input t ↦ { t with incoming := input }) id program

/-- A call on the cache and the sets of keys. -/
def onCache {α : Type} (program : CacheM α) : ThreadM α :=
  zoom HandlerThread.cache (fun s t ↦ { t with cache := s }) (fun _ ↦ .runtimeError) program

/-- An exception of the output. -/
def outputError : SessionError → ThreadError
  | .stream error => .stream error
  | _ => .runtimeError

/-- A request. -/
def onHandler {α : Type} (program : SessionM α) : ThreadM α :=
  zoom HandlerThread.handler (fun h t ↦ { t with handler := h }) outputError program

/-- A key of the cache: its characters are the bytes. -/
def nameOf (bytes : List UInt8) : String := String.ofList (bytes.map fun byte ↦ Char.ofNat byte.toNat)

def bytesOf (name : String) : List UInt8 := name.toList.map fun c ↦ UInt8.ofNat c.toNat

def convertScope : Xml.StreamScope → StreamScope
  | .durable => .durable
  | .externalFile => .externalFile
  | .transient => .transient
  | .runtime => .runtime
  | .unknown => .unknown

/-- Options with their texts as those of the cache. -/
def convertOptions (options : Xml.StreamOptions) : StreamOptions where
  name := options.name.map fun s ↦ nameOf s.bytes
  description := options.description.map fun s ↦ nameOf s.bytes
  owner := options.owner.map fun s ↦ nameOf s.bytes
  location := options.location.map fun s ↦ nameOf s.bytes
  bufferOptions :=
    ⟨options.bufferOptions.initialBufferSize.toNat, options.bufferOptions.maxBufferSize.toNat,
      options.bufferOptions.maxBufferTimeDepth.toNat, options.bufferOptions.lossless⟩
  scope := convertScope options.scope
  distributionFactor := options.distributionFactor.toInt
  distributionRuleName := options.distributionRuleName.map fun s ↦ nameOf s.bytes
  duplicatesAllowed := options.duplicatesAllowed
  highAvailability := options.highAvailability
  unique := options.unique
  polymorphic := options.polymorphic
  periodicity := nameOf options.periodicity.bytes
  metadata := options.metadata.map fun s ↦ nameOf s.bytes

def convertInfo (info : Xml.StreamInfo) : StreamInfo := ⟨nameOf info.key.bytes, convertOptions info.options⟩

/-- `read<T>`, of an unsigned number. -/
def read (size : ℕ) : InputM ℕ := do
  return ofBigEndian (← take .disconnected size)

/-- `readUTF8`: the string is empty when there is none. -/
def readUTF8 : InputM (List UInt8) := do
  let len ← read 2
  if len ≠ 0xFFFF then
    take .disconnected len
  else
    return []

/-- `readPropertyId`. -/
def readPropertyId : InputM ℕ := read 1

def receive_STREAM_DELETED : ThreadM ProcessResult := do
  let key ← onInput readUTF8
  onCache (Session.receive_STREAM_DELETED (nameOf key))
  return .ok

def receive_STREAM_CREATED : ThreadM ProcessResult := do
  let key ← onInput readUTF8
  onCache (Session.receive_STREAM_CREATED (nameOf key))
  return .ok

def receive_STREAM_RENAMED : ThreadM ProcessResult := do
  let oldKey ← onInput readUTF8
  let newKey ← onInput readUTF8
  onCache (Session.receive_STREAM_RENAMED (nameOf oldKey) (nameOf newKey))
  return .ok

/-- `getStreams` of a text; what `Parse` rejects is thrown, and what it returns `false` for as well. -/
def parseStreams (xml : List UInt8) : InputM (List StreamInfo) :=
  match Xml.readDocument xml with
  | .error _ => throw .runtimeError
  | .ok none => throw .undefined
  | .ok (some response) =>
    match Xml.getStreams response with
    | none => throw .runtimeError
    | some newStreams => return newStreams.map convertInfo

/-- The part of `receive_STREAMS_DEFINITION` that reads; a negative size is a large one. -/
def readStreams : InputM (List StreamInfo) := do
  let _ ← read 8
  let sz ← read 4
  if sz = 0 then
    return []
  else if 0x7FFFFFFF < sz then
    throw .runtimeError
  else
    parseStreams (← take .disconnected sz)

def receive_STREAMS_DEFINITION : ThreadM ProcessResult := do
  let newStreams ← onException (onInput readStreams) fun error ↦ do
    onCache (modify countReceived)
    return error
  onCache (Session.receive_STREAMS_DEFINITION newStreams)
  return .ok

def receive_STREAM_PROPERTY_CHANGED : ThreadM ProcessResult := do
  let key ← onInput readUTF8
  let _ ← onInput readPropertyId
  let _ ← onHandler (requestGetStreams [key])
  return .ok

/-- The properties that a text is read for: `KEY`, `NAME`, `DESCRIPTION`, `PERIODICITY` and `OWNER`. -/
def textProperties : List ℕ := [1, 2, 3, 4, 22]

/-- `SCHEMA`. -/
def schemaProperty : ℕ := 6

/-- The part of `receive_STREAM_PROPERTY` that reads; the options it changes are a copy. -/
def readProperty : InputM Unit := do
  let _ ← read 8
  let _ ← readUTF8
  let p ← readPropertyId
  if p ∈ textProperties then
    let _ ← readUTF8
  else if p = schemaProperty then
    let _ ← read 1
    let _ ← readUTF8

/-- What is thrown is dropped. -/
def receive_STREAM_PROPERTY : ThreadM ProcessResult := do
  let _ ← attempt (onInput readProperty)
  modify fun t ↦ { t with nPropertyRequestsReceived := t.nPropertyRequestsReceived + 1 }
  return .ok

def receive_SESSION_CLOSED : ThreadM ProcessResult := return .finished

def receive_STREAMS_CHANGED : ThreadM ProcessResult := do
  let _ ← onHandler (requestGetStreams [])
  return .ok

def closeConnection : ThreadM Unit :=
  modify fun t ↦ { t with handler := { t.handler with connected := false } }

/-- `cleanup`: the pointer to the buffer stays what it is. -/
def cleanup : ThreadM Unit := do
  closeConnection
  modify fun t ↦ { t with
    frees := t.frees + 1
    cache := { t.cache with neededStreamDefs := [], knownStreamDefs := [] } }

/-- The `switch` of `processInput`. -/
def receive (command : ℕ) : ThreadM ProcessResult :=
  match command with
  | 11 => receive_STREAM_PROPERTY_CHANGED
  | 12 => receive_STREAM_DELETED
  | 13 => receive_STREAM_CREATED
  | 14 => receive_STREAM_RENAMED
  | 15 => receive_STREAMS_DEFINITION
  | 16 => receive_STREAM_PROPERTY
  | 17 => receive_SESSION_CLOSED
  | 19 => receive_STREAMS_CHANGED
  | _ => do
    cleanup
    return .finished

/-- `tryRead`, when so many bytes are there before the time is over. -/
def tryRead (arrived maxSize : ℕ) : InputM (List UInt8) := fun input ↦
  if arrived = 0 then .ok [] input
  else if input = [] then .error .disconnected []
  else .ok (input.take (min arrived maxSize)) (input.drop (min arrived maxSize))

/-- The `try` block of `processInput`. -/
def receiveNext (arrived : ℕ) : ThreadM ProcessResult := do
  let buf ← onInput (tryRead arrived 4)
  if buf ≠ [] then
    let more ← onInput (take .disconnected (4 - buf.length))
    receive (ofBigEndian (buf ++ more))
  else
    return .noData

/-- The handlers of `processInput`. -/
def caught : ThreadError → ThreadM ProcessResult
  | .disconnected => do
    closeConnection
    return .finished
  | .stream _ => do
    closeConnection
    return .finished
  | .runtimeError => return .ok
  | .undefined => throw .undefined

def processInput (arrived : ℕ) : ThreadM ProcessResult := do
  let t ← get
  if t.handler.connected then
    match ← attempt (receiveNext arrived) with
    | .ok result => return result
    | .error error => caught error
  else
    return .finished

/-- What the loop finds in one turn: whether it is to stop, how many bytes have arrived, and the order in
which the set of needed keys is gone through. -/
structure Turn where
  shouldStop : Bool
  arrived : ℕ
  order : List String → List String
  order_perm : ∀ keys, (order keys).Perm keys

/-- The end of a turn: all needed streams are asked for. -/
def requestNeeded (order : List String → List String) : ThreadM Unit := do
  let t ← get
  if t.cache.neededStreamDefs ≠ [] then
    modify fun t ↦ { t with cache := { t.cache with neededStreamDefs := [] } }
    let _ ← onHandler (requestGetStreams ((order t.cache.neededStreamDefs).map bytesOf))

/-- A turn of the loop of `threadProcImpl`: whether there is another one. -/
def turn (now : Turn) : ThreadM Bool := do
  if now.shouldStop then
    return false
  else
    let result ← processInput now.arrived
    if result = .finished then
      return false
    else
      requestNeeded now.order
      return true

/-- `close`. -/
def close : ThreadM Unit := cleanup

/-- `threadProcImpl`, for some turns: whether it has ended. -/
def threadProcImpl : List Turn → ThreadM Bool
  | [] => return false
  | now :: turns => do
    if ← turn now then
      threadProcImpl turns
    else
      close
      return true

end HandlerThread

end DxApi.Session
