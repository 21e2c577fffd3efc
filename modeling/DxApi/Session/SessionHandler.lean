import DxApi.Net.Handshake
import DxApi.Net.TCP

/-!
# The output of the session handler

Requests are written into the buffer of a `DataWriter`, which is handed to the connection at the end
of a request, and before a key that would not fit behind what is in the buffer already.
-/

namespace DxApi.Session

open Exec ByteMemory Writer Net

/-- Why a call on the session handler does not return. -/
inductive SessionError
  | writer (error : WriteError)
  | stream (error : IOStreamException)
  | incompatibleVersion (version : ℤ)
  | handshakeFailed
  deriving DecidableEq, Repr

/-- The data members of `SessionHandler` that its output uses. -/
structure SessionHandler where
  writer : DataWriter
  ioStream : IOStreamTCP
  /-- `ioStream_` is not `NULL`. -/
  connected : Bool
  nStreamDefRequestsSent : ℕ
  nPropertyRequestsSent : ℕ

/-- A member function of the session handler. -/
abbrev SessionM (α : Type) := EStateM SessionError SessionHandler α

/-- A call on `writer_`. -/
def onWriter {α : Type} (program : WriterM α) : SessionM α :=
  zoom SessionHandler.writer (fun w h ↦ { h with writer := w }) SessionError.writer program

/-- A call on `ioStream_`. -/
def onStream {α : Type} (program : EStateM IOStreamException IOStreamTCP α) : SessionM α :=
  zoom SessionHandler.ioStream (fun s h ↦ { h with ioStream := s }) SessionError.stream program

/-- `resetPointer` of the writer. -/
def resetPointer : SessionM Unit :=
  modify fun h ↦ { h with writer := { h.writer with dataPtr := h.writer.bufferStart } }

/-- The buffer is handed to the connection; how much of it was accepted is not looked at. -/
def sendBuffer : SessionM Unit := do
  let h ← get
  if h.connected then
    let _ ← onStream (IOStreamTCP.write (slice h.writer.mem h.writer.bufferStart h.writer.dataPtr))

/-- `flushOutput`. -/
def flushOutput : SessionM Unit := do
  let h ← get
  if h.writer.dataPtr ≠ h.writer.bufferStart then
    sendBuffer
    resetPointer

/-! ## Requests -/

/-- `REQ_GET_STREAMS`. -/
def reqGetStreams : ℤ := 1

/-- `REQ_GET_STREAM_PROPERTY`. -/
def reqGetStreamProperty : ℤ := 2

/-- `REQ_CLOSE_SESSION`. -/
def reqCloseSession : ℤ := 3

/-- `REQ_CREATE_SESSION`. -/
def reqCreateSession : ℤ := 3

/-- `remaining` of the writer, as an unsigned number. -/
def remaining (w : DataWriter) : ℕ := ((w.dataEnd - w.dataPtr) % 2 ^ 64).toNat

/-- The buffer is flushed if a key does not fit. -/
def makeRoom (key : List UInt8) : SessionM Unit := do
  let h ← get
  if remaining h.writer ≤ key.length + 4 then
    flushOutput

/-- The loop of `requestGetStreams` over the keys. -/
def writeKeys : List (List UInt8) → SessionM Unit
  | [] => return ()
  | key :: keys => do
    makeRoom key
    onWriter (writeUTF8 key)
    writeKeys keys

/-- `requestGetStreams`: the result is the number of the request. -/
def requestGetStreams (keys : List (List UInt8)) : SessionM ℕ := do
  onWriter (writeUInt32 reqGetStreams)
  modify fun h ↦ { h with nStreamDefRequestsSent := h.nStreamDefRequestsSent + 1 }
  let h ← get
  onWriter (writeUInt64 h.nStreamDefRequestsSent)
  onWriter (writeUInt32 keys.length)
  writeKeys keys
  flushOutput
  return h.nStreamDefRequestsSent

/-- `requestGetProperty`: the result is the number of the request. -/
def requestGetProperty (key : List UInt8) (id : ℤ) : SessionM ℕ := do
  onWriter (writeUInt32 reqGetStreamProperty)
  modify fun h ↦ { h with nPropertyRequestsSent := h.nPropertyRequestsSent + 1 }
  let h ← get
  onWriter (writeUInt64 h.nPropertyRequestsSent)
  onWriter (writeUTF8 key)
  onWriter (writeByte id)
  flushOutput
  return h.nPropertyRequestsSent

/-- `requestClose`. -/
def requestClose : SessionM Unit := do
  onWriter (writeUInt32 reqCloseSession)
  flushOutput

/-- The part of `start` behind the handshake, up to the session id. -/
def createSession (dummyKey : List UInt8) : SessionM Unit := do
  onWriter (writeByte reqCreateSession)
  onWriter (writeByte 0)
  onWriter (writeByte 1)
  flushOutput
  let _ ← requestGetStreams [dummyKey]

/-- The part of `start` behind the version of the server. -/
def startSession (credentials : Credentials) (handshake : ℤ) (dummyKey : List UInt8) :
    SessionM Unit := do
  onWriter (writeCredentials credentials)
  flushOutput
  if handshake = respError then
    throw .handshakeFailed
  else
    createSession dummyKey

/-- `start`, up to the session id; the buffer and the connection are there. -/
def start (credentials : Credentials) (answers : ServerAnswers) (dummyKey : List UInt8) :
    SessionM Unit := do
  resetPointer
  onWriter writeVersion
  flushOutput
  if answers.version < minServerVersion then
    throw (.incompatibleVersion answers.version)
  else
    startSession credentials answers.handshake dummyKey

/-- The calls that send something. -/
inductive SessionCall
  | start (credentials : Credentials) (answers : ServerAnswers) (dummyKey : List UInt8)
  | requestGetStreams (keys : List (List UInt8))
  | requestGetProperty (key : List UInt8) (id : ℤ)
  | requestClose

def SessionCall.exec : SessionCall → SessionM Unit
  | start credentials answers dummyKey => Session.start credentials answers dummyKey
  | requestGetStreams keys => do
    let _ ← Session.requestGetStreams keys
  | requestGetProperty key id => do
    let _ ← Session.requestGetProperty key id
  | requestClose => Session.requestClose

/-- Calls one after the other; what they throw is caught. -/
def runCalls (calls : List SessionCall) (h : SessionHandler) : SessionHandler :=
  calls.foldl (fun h call ↦ finalState call.exec h) h

/-! ## The connection is reached by `write` only -/

section

variable {kept : IOStreamTCP → Prop}

/-- An invariant of the connection. -/
def StreamKept (kept : IOStreamTCP → Prop) (h : SessionHandler) : Prop := kept h.ioStream

theorem onWriter_kept {α : Type} (program : WriterM α) :
    Preserves (StreamKept kept) (onWriter program) :=
  preserves_zoom program fun _ _ h ↦ h

variable (hwrite : ∀ data, Preserves kept (IOStreamTCP.write data))

include hwrite

theorem flushOutput_kept : Preserves (StreamKept kept) flushOutput := by
  have hreset : Preserves (StreamKept kept) resetPointer := preserves_modify fun _ h ↦ h
  have hsend : Preserves (StreamKept kept) sendBuffer := by
    apply preserves_get.bind
    intro h
    apply Preserves.ite
    · apply Preserves.bind
      · exact (hwrite _).zoom (fun _ hkept ↦ hkept) fun _ _ _ hkept ↦ hkept
      · exact fun _ ↦ preserves_pure _
    · exact preserves_pure _
  apply preserves_get.bind
  intro h
  exact (hsend.bind fun _ ↦ hreset).ite (preserves_pure _)

theorem writeKeys_kept (keys : List (List UInt8)) : Preserves (StreamKept kept) (writeKeys keys) := by
  induction keys with
  | nil => exact preserves_pure _
  | cons key keys ih =>
    have hroom : Preserves (StreamKept kept) (makeRoom key) :=
      preserves_get.bind fun _ ↦ (flushOutput_kept hwrite).ite (preserves_pure _)
    exact hroom.bind fun _ ↦ (onWriter_kept _).bind fun _ ↦ ih

theorem requestGetStreams_kept (keys : List (List UInt8)) :
    Preserves (StreamKept kept) (requestGetStreams keys) := by
  apply (onWriter_kept _).bind
  intro _
  apply Preserves.bind
  · exact preserves_modify fun _ h ↦ h
  · intro _
    apply preserves_get.bind
    intro h
    exact (onWriter_kept _).bind fun _ ↦ (onWriter_kept _).bind fun _ ↦
      (writeKeys_kept hwrite keys).bind fun _ ↦ (flushOutput_kept hwrite).bind fun _ ↦
        preserves_pure _

theorem requestGetProperty_kept (key : List UInt8) (id : ℤ) :
    Preserves (StreamKept kept) (requestGetProperty key id) := by
  apply (onWriter_kept _).bind
  intro _
  apply Preserves.bind
  · exact preserves_modify fun _ h ↦ h
  · intro _
    apply preserves_get.bind
    intro h
    exact (onWriter_kept _).bind fun _ ↦ (onWriter_kept _).bind fun _ ↦
      (onWriter_kept _).bind fun _ ↦ (flushOutput_kept hwrite).bind fun _ ↦ preserves_pure _

theorem start_kept (credentials : Credentials) (answers : ServerAnswers) (dummyKey : List UInt8) :
    Preserves (StreamKept kept) (start credentials answers dummyKey) := by
  have hcreate : Preserves (StreamKept kept) (createSession dummyKey) :=
    (onWriter_kept _).bind fun _ ↦ (onWriter_kept _).bind fun _ ↦ (onWriter_kept _).bind fun _ ↦
      (flushOutput_kept hwrite).bind fun _ ↦
        (requestGetStreams_kept hwrite _).bind fun _ ↦ preserves_pure _
  have hsession : Preserves (StreamKept kept)
      (startSession credentials answers.handshake dummyKey) :=
    (onWriter_kept _).bind fun _ ↦ (flushOutput_kept hwrite).bind fun _ ↦
      (preserves_throw _).ite hcreate
  have hreset : Preserves (StreamKept kept) resetPointer := preserves_modify fun _ h ↦ h
  exact hreset.bind fun _ ↦ (onWriter_kept _).bind fun _ ↦ (flushOutput_kept hwrite).bind fun _ ↦
    (preserves_throw _).ite hsession

theorem SessionCall.exec_kept (call : SessionCall) : Preserves (StreamKept kept) call.exec := by
  cases call with
  | start credentials answers dummyKey => exact start_kept hwrite credentials answers dummyKey
  | requestGetStreams keys =>
    exact (requestGetStreams_kept hwrite keys).bind fun _ ↦ preserves_pure _
  | requestGetProperty key id =>
    exact (requestGetProperty_kept hwrite key id).bind fun _ ↦ preserves_pure _
  | requestClose => exact (onWriter_kept _).bind fun _ ↦ flushOutput_kept hwrite

/-- Whatever `write` keeps is kept by every run. -/
theorem runCalls_kept {h : SessionHandler} (hkept : kept h.ioStream) (calls : List SessionCall) :
    kept (runCalls calls h).ioStream := by
  induction calls generalizing h with
  | nil => exact hkept
  | cons call calls ih => exact ih ((call.exec_kept hwrite).finalState hkept)

end

end DxApi.Session
