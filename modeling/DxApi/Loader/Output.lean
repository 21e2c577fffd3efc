import DxApi.Loader.Finish
import DxApi.Loader.Invariants
import DxApi.Net.Handshake
import DxApi.Writer.FailedWrites

/-!
# The output of a loader

A loader reaches its connection by `transmitBuffer`, which calls `write`, and by `closeOutput` at the
end. What both of them keep of the connection is therefore kept by every run, from the requests that
open the upload to `finish`.
-/

namespace DxApi.Loader

open Exec ByteMemory Writer Net TickLoaderImpl

/-! ## Opening the upload -/

/-- `REQ_UPLOAD_DATA`. -/
def reqUploadData : ℤ := 1

/-- What `open` is told of the stream and the options; the types are those of the stream that are not
abstract. -/
structure OpenRequest where
  credentials : Credentials
  types : List (List UInt8)
  key : List UInt8
  writeMode : ℤ
  space : Option (List UInt8)
  minLatency : Bool

/-- The request that starts the upload. -/
def writeUploadRequest (request : OpenRequest) : WriterM Unit := do
  writeByte reqUploadData
  writeByte 0
  writeByte 1
  writeUTF8 request.key
  writeByte request.writeMode
  match request.space with
  | none => writeBoolean 0
  | some space =>
    writeBoolean 1
    writeUTF8 space

/-- The part of `open` behind the handshake. -/
def startUpload (request : OpenRequest) (version : ℤ) : LoaderM Unit := do
  modify fun l ↦ { l with useEntityId32 := decide (serverEntityId32SupportVersion ≤ version) }
  onWriter (writeUploadRequest request)
  flushOutput
  modify fun l ↦ { l with
    minChunkSize := if request.minLatency then 0 else l.minChunkSize
    state := .notInMessageBlock }

/-- The part of `open` behind the version of the server. -/
def login (request : OpenRequest) (answers : ServerAnswers) : LoaderM Unit := do
  onWriter (writeCredentials request.credentials)
  flushOutput
  if answers.handshake = respError then
    modify fun l ↦ { l with state := .notInitialized, interruption := .serverFinishedError }
    cleanup
    throw .handshakeFailed
  else
    startUpload request answers.version

/-- The number of the type that was registered last under a name. -/
def lastIndexOf (types : List (List UInt8)) (name : List UInt8) : Option ℕ :=
  (List.range types.length).reverse.find? fun index ↦ types[index]? = some name

/-- `open`, over the connection and the buffer that it has made. -/
def openUpload (request : OpenRequest) (answers : ServerAnswers) (buffer : ℤ) : LoaderM Unit := do
  modify fun l ↦ { l with nMsgWritten := 0, nMsgCancelled := 0 }
  if request.types = [] then
    throw .noMessageTypes
  else
    modify fun l ↦ { l with
      instruments := []
      typeIndex := lastIndexOf request.types
      typeIdLocal2Remote := fun typeId ↦ if typeId < request.types.length then some typeId else none
      messageWriter := { l.messageWriter with
        bufferStart := buffer
        dataEnd := buffer + (maxMessageSize + 56 : ℕ) }
      connected := true }
    resetPointers
    onWriter writeVersion
    flushOutput
    if answers.version < minServerVersion then
      throw (.incompatibleVersion answers.version)
    else
      login request answers

/-! ## What `open` leaves -/

/-- What the requests of `open` do not change. -/
structure Opening (buffer : ℤ) (l : TickLoaderImpl) : Prop where
  interruption : l.interruption = .working
  connected : l.connected = true
  outputClosed : l.ioStream.outputClosed = false
  instruments : l.instruments = []
  bufferStart : l.messageWriter.bufferStart = buffer
  dataEnd : l.messageWriter.dataEnd = buffer + (maxMessageSize + 56 : ℕ)

variable {buffer : ℤ}

theorem onWriter_opening {program : WriterM Unit} (h : Stores program) :
    Preserves (Opening buffer) (onWriter program) := by
  have hsame : ∀ l w', Opening buffer l → Grown l.messageWriter w' →
      Opening buffer { l with messageWriter := w' } :=
    fun l w' hl hw' ↦ ⟨hl.interruption, hl.connected, hl.outputClosed, hl.instruments,
      hw'.bufferStart.trans hl.bufferStart, hw'.dataEnd.trans hl.dataEnd⟩
  intro l hl
  rw [onWriter, wp_zoom]
  apply wp_mono (h l.messageWriter)
  · exact fun _ w' hw' ↦ hsame l w' hl hw'.1
  · exact fun _ w' hw' ↦ hsame l w' hl hw'

/-- A flush empties the buffer. -/
theorem flushOutput_opening (l : TickLoaderImpl) (hl : Opening buffer l) :
    wp flushOutput
      (fun _ l' ↦ Opening buffer l' ∧ l'.messageWriter.dataPtr = buffer ∧ l'.writePtr = buffer)
      (fun _ _ ↦ True) l := by
  have hreset : ∀ l' : TickLoaderImpl, Opening buffer l' → wp resetPointers
      (fun _ l' ↦ Opening buffer l' ∧ l'.messageWriter.dataPtr = buffer ∧ l'.writePtr = buffer)
      (fun _ _ ↦ True) l' :=
    fun l' hl' ↦ ⟨⟨hl'.interruption, hl'.connected, hl'.outputClosed, hl'.instruments,
      hl'.bufferStart, hl'.dataEnd⟩, hl'.bufferStart, hl'.bufferStart⟩
  have htransmit : wp transmitBuffer (fun _ l' ↦ Opening buffer l') (fun _ _ ↦ True) l := by
    rw [transmitBuffer, wp_bind, wp_get, wp_ite]
    refine ⟨fun _ ↦ ?_, fun _ ↦ hl⟩
    rw [wp_bind, onStream, wp_zoom]
    apply wp_mono (IOStreamTCP.write_spec _ _)
    · exact fun _ s' hs' ↦ ⟨hl.interruption, hl.connected, hs'.outputClosed.trans hl.outputClosed,
        hl.instruments, hl.bufferStart, hl.dataEnd⟩
    · exact fun _ _ _ ↦ trivial
  rw [flushOutput, wp_bind, wp_get, wp_ite]
  constructor
  · intro _
    rw [wp_bind]
    apply wp_mono htransmit
    · exact fun _ l' hl' ↦ hreset l' hl'
    · exact fun _ _ _ ↦ trivial
  · exact fun _ ↦ hreset l hl

theorem writeUTF8_stores (data : List UInt8) : Stores (writeUTF8 data) := by
  intro w
  by_cases hrefused : 0xFFFF ≤ data.length
  · apply wp_mono ((writeUTF8_refuses data).unchanged hrefused w)
    · exact fun _ _ hfalse ↦ hfalse.elim
    · intro _ w' hw'
      rw [hw']
      exact Grown.refl w
  · exact ((writeUTF8_refuses data).spoils hrefused).stores w

theorem writeCredentials_stores (credentials : Credentials) : Stores (writeCredentials credentials) := by
  have hbyte : ∀ value, Stores (writeByte value) := fun _ ↦ (putBE_spoils _ _).stores
  exact (hbyte 0).ite ((hbyte 1).bind fun _ ↦ (writeUTF8_stores _).bind fun _ ↦ writeUTF8_stores _)

theorem writeUploadRequest_stores (request : OpenRequest) : Stores (writeUploadRequest request) := by
  have hbyte : ∀ value, Stores (writeByte value) := fun _ ↦ (putBE_spoils _ _).stores
  apply (hbyte _).bind
  intro _
  apply (hbyte _).bind
  intro _
  apply (hbyte _).bind
  intro _
  apply (writeUTF8_stores _).bind
  intro _
  apply (hbyte _).bind
  intro _
  cases request.space with
  | none => exact (putBE_spoils _ _).stores
  | some space => exact (putBE_spoils _ _).stores.bind fun _ ↦ writeUTF8_stores _

/-- A request is written and sent. -/
theorem sendRequest_opening {program : WriterM Unit} (h : Stores program) {next : LoaderM Unit}
    (hnext : ∀ l, Opening buffer l → l.messageWriter.dataPtr = buffer → l.writePtr = buffer →
      wp next (fun _ l' ↦ Opened l') (fun _ _ ↦ True) l) (l : TickLoaderImpl) (hl : Opening buffer l) :
    wp (do onWriter program; flushOutput; next) (fun _ l' ↦ Opened l') (fun _ _ ↦ True) l := by
  apply wp_call (onWriter_opening h l hl)
  · intro _ l₁ h₁
    apply wp_call (flushOutput_opening l₁ h₁)
    · exact fun _ l₂ h₂ ↦ hnext l₂ h₂.1 h₂.2.1 h₂.2.2
    · exact fun _ _ _ ↦ trivial
  · exact fun _ _ _ ↦ trivial

theorem startUpload_opened (request : OpenRequest) (version : ℤ) (l : TickLoaderImpl)
    (hl : Opening buffer l) :
    wp (startUpload request version) (fun _ l' ↦ Opened l') (fun _ _ ↦ True) l := by
  have hstart : Opening buffer
      { l with useEntityId32 := decide (serverEntityId32SupportVersion ≤ version) } :=
    ⟨hl.interruption, hl.connected, hl.outputClosed, hl.instruments, hl.bufferStart, hl.dataEnd⟩
  rw [startUpload, wp_bind, wp_modify]
  apply sendRequest_opening (writeUploadRequest_stores request) _ _ hstart
  intro l' hl' hptr hwritePtr
  have hbuffer := hl'.bufferStart
  exact ⟨rfl, hl'.interruption, hl'.connected, hl'.outputClosed, hl'.instruments,
    hptr.trans hbuffer.symm, hwritePtr.trans hbuffer.symm, hbuffer ▸ hl'.dataEnd⟩

/-- An `open` that returns leaves an open loader. -/
theorem openUpload_opened (request : OpenRequest) (answers : ServerAnswers) (buffer : ℤ)
    (l : TickLoaderImpl) (hworking : l.interruption = .working)
    (hopen : l.ioStream.outputClosed = false) :
    wp (openUpload request answers buffer) (fun _ l' ↦ Opened l') (fun _ _ ↦ True) l := by
  have hversion : Stores writeVersion :=
    (putBE_spoils _ _).stores.bind fun _ ↦ (putBE_spoils _ _).stores
  have hlogin : ∀ l, Opening buffer l →
      wp (login request answers) (fun _ l' ↦ Opened l') (fun _ _ ↦ True) l := by
    apply sendRequest_opening (writeCredentials_stores _)
    intro l hl _ _
    rw [wp_ite]
    constructor
    · exact fun _ ↦ trivial
    · exact fun _ ↦ startUpload_opened request answers.version l hl
  have hconnect : ∀ l, Opening buffer l →
      wp (do
        onWriter writeVersion
        flushOutput
        if answers.version < minServerVersion then
          throw (.incompatibleVersion answers.version)
        else
          login request answers) (fun _ l' ↦ Opened l') (fun _ _ ↦ True) l := by
    apply sendRequest_opening hversion
    intro l hl _ _
    rw [wp_ite]
    exact ⟨fun _ ↦ trivial, fun _ ↦ hlogin l hl⟩
  rw [openUpload, wp_bind, wp_modify, wp_ite]
  refine ⟨fun _ ↦ trivial, fun _ ↦ ?_⟩
  rw [wp_bind, wp_modify, wp_bind, resetPointers, wp_modify]
  exact hconnect _ ⟨hworking, rfl, hopen, rfl, rfl, rfl⟩

/-! ## The connection is reached by `write` and `closeOutput` only -/

section

variable {kept : IOStreamTCP → Prop}

/-- An invariant of the connection. -/
def StreamKept (kept : IOStreamTCP → Prop) (l : TickLoaderImpl) : Prop := kept l.ioStream

theorem cleanup_kept : Preserves (StreamKept kept) cleanup :=
  preserves_modify fun _ h ↦ h

variable (hwrite : ∀ data, Preserves kept (IOStreamTCP.write data))

include hwrite

theorem streamKept_untouched : Untouched (StreamKept kept) where
  messageWriter _ _ hl := hl
  state _ _ hl := hl
  messageStart _ _ hl := hl
  writePtr _ _ hl := hl
  instruments _ _ hl := hl
  counted _ hl := hl
  cancelled _ hl := hl
  write data := (hwrite data).zoom (fun _ hkept ↦ hkept) fun _ _ _ hkept ↦ hkept

theorem runAll_kept {l : TickLoaderImpl} (hkept : kept l.ioStream) (calls : List Call) :
    kept (runAll calls l).ioStream := by
  induction calls generalizing l with
  | nil => exact hkept
  | cons call calls ih => exact ih ((call.preserves_exec (streamKept_untouched hwrite)).finalState hkept)

theorem openUpload_kept (request : OpenRequest) (answers : ServerAnswers) (buffer : ℤ) :
    Preserves (StreamKept kept) (openUpload request answers buffer) := by
  have huntouched := streamKept_untouched hwrite
  have hstart : Preserves (StreamKept kept) (startUpload request answers.version) := by
    apply Preserves.bind
    · exact preserves_modify fun _ h ↦ h
    · intro _
      apply (preserves_onWriter huntouched _).bind
      intro _
      apply (preserves_flushOutput huntouched).bind
      intro _
      exact preserves_modify fun _ h ↦ h
  have hlogin : Preserves (StreamKept kept) (login request answers) := by
    apply (preserves_onWriter huntouched _).bind
    intro _
    apply (preserves_flushOutput huntouched).bind
    intro _
    apply Preserves.ite
    · apply Preserves.bind
      · exact preserves_modify fun _ h ↦ h
      · exact fun _ ↦ cleanup_kept.bind fun _ ↦ preserves_throw _
    · exact hstart
  apply Preserves.bind
  · exact preserves_modify fun _ h ↦ h
  · intro _
    apply (preserves_throw _).ite
    apply Preserves.bind
    · exact preserves_modify fun _ h ↦ h
    · intro _
      exact (preserves_resetPointers huntouched).bind fun _ ↦ (preserves_onWriter huntouched _).bind fun _ ↦
        (preserves_flushOutput huntouched).bind fun _ ↦ (preserves_throw _).ite hlogin

theorem finish_kept (hclose : ∀ s, kept s → kept s.closeOutput) :
    Preserves (StreamKept kept) finish := by
  have huntouched := streamKept_untouched hwrite
  have hcancel : Preserves (StreamKept kept) cancelOpenMessage :=
    preserves_get.bind fun _ ↦ ((preserves_cancelMessage huntouched).bind fun _ ↦ preserves_setState huntouched _).ite (preserves_pure _)
  have hend : Preserves (StreamKept kept) endWriting :=
    (preserves_endMessageBlockIfNeeded huntouched).bind fun _ ↦ (preserves_flushOutput huntouched).bind fun _ ↦
      (preserves_onWriter huntouched _).bind fun _ ↦ preserves_setState huntouched _
  have houtput : Preserves (StreamKept kept) closeOutput := by
    apply preserves_get.bind
    intro l
    apply Preserves.ite
    · apply hend.bind
      intro _
      apply (preserves_flushOutput huntouched).bind
      intro _
      exact preserves_modify fun l hl ↦ hclose l.ioStream hl
    · exact preserves_pure _
  have hwriting : Preserves (StreamKept kept) finishWriting := by
    apply Preserves.bind
    · exact preserves_modify fun _ h ↦ h
    · exact fun _ ↦ hcancel.bind fun _ ↦ houtput.bind fun _ ↦ (preserves_setState huntouched _).bind fun _ ↦
        cleanup_kept
  apply preserves_get.bind
  intro l
  apply Preserves.ite
  · apply hwriting.onException
    intro error
    cases error
    all_goals
      apply Preserves.bind
      · exact preserves_modify fun _ h ↦ h
      · exact fun _ ↦ cleanup_kept.bind fun _ ↦ preserves_pure _
  · exact cleanup_kept

end

/-- A whole upload: what a call throws is caught, and the client goes on. -/
def wholeUpload (request : OpenRequest) (answers : ServerAnswers) (buffer : ℤ) (calls : List Call)
    (l : TickLoaderImpl) : TickLoaderImpl :=
  finalState finish (runAll calls (finalState (openUpload request answers buffer) l))

/-- What `write` and `closeOutput` keep of the connection is kept by a whole upload. -/
theorem wholeUpload_kept {kept : IOStreamTCP → Prop}
    (hwrite : ∀ data, Preserves kept (IOStreamTCP.write data))
    (hclose : ∀ s, kept s → kept s.closeOutput) (request : OpenRequest) (answers : ServerAnswers)
    (buffer : ℤ) (calls : List Call) {l : TickLoaderImpl} (hkept : kept l.ioStream) :
    kept (wholeUpload request answers buffer calls l).ioStream := by
  have hopened : kept (finalState (openUpload request answers buffer) l).ioStream :=
    (openUpload_kept hwrite request answers buffer).finalState hkept
  exact (finish_kept hwrite hclose).finalState (runAll_kept hwrite hopened calls)

end DxApi.Loader
