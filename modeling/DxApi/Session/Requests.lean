import DxApi.Loader.Moves
import DxApi.Net.Delivery

/-!
# Whole requests

A request is assembled in the buffer of the writer and flushed at its end. When a key is too long
`writeUTF8` throws behind the header, which stays in the buffer and is sent with the next request.
-/

namespace DxApi.Session

open Exec ByteMemory ByteOrder Writer Net IOStreamTCP

/-- `BASIC_WRITER_BUFFER_SIZE`. -/
def basicWriterBufferSize : ℕ := 0x11000

/-! ## Records -/

/-- What a call asks the server for. -/
inductive SessionRequest
  | getStreams (keys : List (List UInt8))
  | getProperty (key : List UInt8) (id : ℤ)

def SessionRequest.call : SessionRequest → SessionCall
  | .getStreams keys => .requestGetStreams keys
  | .getProperty key id => .requestGetProperty key id

def SessionRequest.isGetStreams : SessionRequest → Bool
  | .getStreams _ => true
  | .getProperty _ _ => false

/-- A request with its number. -/
structure RequestRecord where
  id : ℕ
  request : SessionRequest

def encodeKey (key : List UInt8) : List UInt8 := bigEndian 2 key.length ++ key

/-- The bytes in front of the keys. -/
def streamsHeader (id count : ℕ) : List UInt8 :=
  bigEndian 4 (word 4 reqGetStreams) ++ bigEndian 8 (word 8 id) ++ bigEndian 4 (word 4 count)

def propertyHeader (id : ℕ) : List UInt8 :=
  bigEndian 4 (word 4 reqGetStreamProperty) ++ bigEndian 8 (word 8 id)

def RequestRecord.encode : RequestRecord → List UInt8
  | ⟨id, .getStreams keys⟩ => streamsHeader id keys.length ++ keys.flatMap encodeKey
  | ⟨id, .getProperty key property⟩ => propertyHeader id ++ encodeKey key ++ bigEndian 1 (word 1 property)

/-- The keys are short enough for their length fields, and their number for its field. -/
def SessionRequest.Fits : SessionRequest → Prop
  | .getStreams keys => keys.length < 2 ^ 32 ∧ ∀ key ∈ keys, key.length < 0xFFFF
  | .getProperty key _ => key.length < 0xFFFF

def Consecutive (ids : List ℕ) : Prop := ∃ first, ids = List.range' first ids.length

/-- The bytes are complete records, numbered kind by kind, each with the keys of one of the calls. -/
def WholeRequests (requests : List SessionRequest) (bytes : List UInt8) : Prop :=
  ∃ records : List RequestRecord, bytes = records.flatMap RequestRecord.encode ∧
    (∀ record ∈ records, record.request.Fits) ∧
    (∀ kind, Consecutive ((records.filter fun record ↦ record.request.isGetStreams = kind).map
      RequestRecord.id)) ∧
    (records.map RequestRecord.request).Sublist requests

/-! ## The output -/

def pending (h : SessionHandler) : List UInt8 := slice h.writer.mem h.writer.bufferStart h.writer.dataPtr

/-- What was written to the connection and what waits in the buffer. -/
def produced (h : SessionHandler) : List UInt8 := h.ioStream.handed ++ pending h

/-- The session is connected, writes do not fail, and the buffer is the one of `start`. -/
structure Sendable (h : SessionHandler) : Prop where
  connected : h.connected = true
  outputClosed : h.ioStream.outputClosed = false
  accepts : ∀ n, ∃ count, h.ioStream.send n = .accepts count
  end_eq : h.writer.dataEnd = h.writer.bufferStart + basicWriterBufferSize
  start_le : h.writer.bufferStart ≤ h.writer.dataPtr
  ptr_le : h.writer.dataPtr ≤ h.writer.dataEnd

/-- Nothing waits in the buffer. -/
structure Idle (h : SessionHandler) : Prop extends Sendable h where
  dataPtr_eq : h.writer.dataPtr = h.writer.bufferStart

/-- `data` was added to the output. -/
structure Put (data : List UInt8) (h h' : SessionHandler) : Prop where
  sendable : Sendable h'
  produced_eq : produced h' = produced h ++ data
  dataPtr_le : h'.writer.dataPtr ≤ h.writer.dataPtr + data.length
  bufferStart_eq : h'.writer.bufferStart = h.writer.bufferStart
  streams_eq : h'.nStreamDefRequestsSent = h.nStreamDefRequestsSent
  properties_eq : h'.nPropertyRequestsSent = h.nPropertyRequestsSent

section

variable {h h' h'' : SessionHandler} {data more : List UInt8}

theorem Sendable.end_of_put (hs : Sendable h) (hput : Put data h h') :
    h'.writer.dataEnd = h.writer.dataEnd := by
  rw [hput.sendable.end_eq, hs.end_eq, hput.bufferStart_eq]

theorem Put.refl (hs : Sendable h) : Put [] h h where
  sendable := hs
  produced_eq := (List.append_nil _).symm
  dataPtr_le := by
    rw [List.length_nil]
    omega
  bufferStart_eq := rfl
  streams_eq := rfl
  properties_eq := rfl

theorem Put.trans (hfirst : Put data h h') (hsecond : Put more h' h'') : Put (data ++ more) h h'' := by
  constructor
  · exact hsecond.sendable
  · rw [hsecond.produced_eq, hfirst.produced_eq, List.append_assoc]
  · have hle := hfirst.dataPtr_le
    have hle' := hsecond.dataPtr_le
    rw [List.length_append]
    push_cast
    omega
  · exact hsecond.bufferStart_eq.trans hfirst.bufferStart_eq
  · exact hsecond.streams_eq.trans hfirst.streams_eq
  · exact hsecond.properties_eq.trans hfirst.properties_eq

theorem Sendable.count (hs : Sendable h) (streams properties : ℕ) :
    Sendable { h with nStreamDefRequestsSent := streams, nPropertyRequestsSent := properties } where
  connected := hs.connected
  outputClosed := hs.outputClosed
  accepts := hs.accepts
  end_eq := hs.end_eq
  start_le := hs.start_le
  ptr_le := hs.ptr_le

/-- A count goes up between two writes. -/
theorem Put.countStreams (hput : Put data h h') (streams : ℕ) :
    Put data { h with nStreamDefRequestsSent := streams } { h' with nStreamDefRequestsSent := streams } where
  sendable := hput.sendable.count _ _
  produced_eq := hput.produced_eq
  dataPtr_le := hput.dataPtr_le
  bufferStart_eq := hput.bufferStart_eq
  streams_eq := rfl
  properties_eq := hput.properties_eq

theorem Put.countProperties (hput : Put data h h') (properties : ℕ) :
    Put data { h with nPropertyRequestsSent := properties } { h' with nPropertyRequestsSent := properties } where
  sendable := hput.sendable.count _ _
  produced_eq := hput.produced_eq
  dataPtr_le := hput.dataPtr_le
  bufferStart_eq := hput.bufferStart_eq
  streams_eq := hput.streams_eq
  properties_eq := rfl

/-- A write that finds room. -/
theorem onWriter_put (hs : Sendable h) {program : WriterM Unit}
    (hprogram : wp program (fun _ w' ↦ Appended data h.writer w' ∧ w'.dataPtr ≤ h.writer.dataEnd)
      (fun _ _ ↦ False) h.writer) :
    wp (onWriter program) (fun _ h' ↦ Put data h h') (fun _ _ ↦ False) h := by
  rw [onWriter, wp_zoom]
  apply wp_mono hprogram
  · intro _ w' ⟨happended, hend⟩
    have hptr := happended.dataPtr
    have hstart : w'.bufferStart = h.writer.bufferStart := by rw [happended.rest]
    have hlimit : w'.dataEnd = h.writer.dataEnd := by rw [happended.rest]
    have hle := hs.start_le
    constructor
    · constructor
      · exact hs.connected
      · exact hs.outputClosed
      · exact hs.accepts
      · change w'.dataEnd = w'.bufferStart + _
        rw [hlimit, hstart, hs.end_eq]
      · change w'.bufferStart ≤ w'.dataPtr
        omega
      · change w'.dataPtr ≤ w'.dataEnd
        omega
    · change h.ioStream.handed ++ slice w'.mem w'.bufferStart w'.dataPtr = _
      rw [hstart, slice_append _ h.writer.dataPtr hle (by omega), happended.data,
        slice_congr fun address _ hlt ↦ happended.before address hlt, ← List.append_assoc]
      rfl
    · exact le_of_eq hptr
    · exact hstart
    · rfl
    · rfl
  · exact fun _ _ ↦ id

theorem putWord_put (hs : Sendable h) {size : ℕ} (value : ℤ)
    (hroom : h.writer.dataPtr + size ≤ h.writer.dataEnd) :
    wp (onWriter (putWord size value)) (fun _ h' ↦ Put (bigEndian size (word size value)) h h')
      (fun _ _ ↦ False) h := by
  have hput := Loader.putBE_appended (bigEndian size (word size value)) h.writer
  rw [length_bigEndian] at hput
  apply onWriter_put hs
  apply wp_mono hput
  · exact fun _ _ ↦ id
  · exact fun _ _ hover ↦ hover hroom

theorem writeUTF8_put (hs : Sendable h) {key : List UInt8} (hkey : key.length < 0xFFFF)
    (hroom : h.writer.dataPtr + (2 + key.length : ℕ) ≤ h.writer.dataEnd) :
    wp (onWriter (writeUTF8 key)) (fun _ h' ↦ Put (encodeKey key) h h') (fun _ _ ↦ False) h := by
  apply onWriter_put hs
  apply wp_mono (Loader.writeUTF8_appended key h.writer)
  · exact fun _ _ ↦ And.right
  · exact fun _ _ hover ↦ hover ⟨hkey, hroom⟩

theorem resetPointer_spec (hs : Sendable h) :
    wp resetPointer (fun _ h' ↦ Idle h' ∧ h'.ioStream = h.ioStream ∧
      h'.writer.bufferStart = h.writer.bufferStart ∧
      h'.nStreamDefRequestsSent = h.nStreamDefRequestsSent ∧
      h'.nPropertyRequestsSent = h.nPropertyRequestsSent) (fun _ _ ↦ False) h := by
  rw [resetPointer, wp_modify]
  refine ⟨⟨⟨hs.connected, hs.outputClosed, hs.accepts, hs.end_eq, le_refl _, ?_⟩, rfl⟩, rfl, rfl, rfl, rfl⟩
  exact hs.start_le.trans hs.ptr_le

theorem sendBuffer_spec (hs : Sendable h) :
    wp sendBuffer (fun _ h' ↦ Sendable h' ∧ h'.ioStream.handed = produced h ∧ h'.writer = h.writer ∧
      h'.nStreamDefRequestsSent = h.nStreamDefRequestsSent ∧
      h'.nPropertyRequestsSent = h.nPropertyRequestsSent) (fun _ _ ↦ False) h := by
  have hsize : (pending h).length < 2 ^ 31 := by
    have hend := hs.end_eq
    have hle := hs.ptr_le
    rw [pending, length_slice]
    rw [basicWriterBufferSize] at hend
    omega
  rw [sendBuffer, wp_bind, wp_get, wp_ite]
  constructor
  · intro _
    rw [onStream, wp_bind, wp_zoom]
    apply wp_mono (write_spec (pending h) h.ioStream)
    · intro result s' hwritten
      rw [wp_pure]
      refine ⟨⟨hs.connected, ?_, ?_, hs.end_eq, hs.start_le, hs.ptr_le⟩, handed_of_written hwritten, rfl, rfl, rfl⟩
      · exact hwritten.outputClosed.trans hs.outputClosed
      · intro n
        change ∃ count, s'.send n = _
        rw [hwritten.send]
        exact hs.accepts n
    · intro _ s' ⟨_, _, hcannot⟩
      exact hcannot ⟨hs.outputClosed, by rw [Nat.mod_eq_of_lt (by omega)]; exact hsize, hs.accepts _⟩
  · exact fun hnot ↦ absurd hs.connected hnot

/-- A flush hands over what is pending. -/
theorem flushOutput_spec (hs : Sendable h) :
    wp flushOutput (fun _ h' ↦ Put [] h h' ∧ Idle h') (fun _ _ ↦ False) h := by
  rw [flushOutput, wp_bind, wp_get, wp_ite]
  constructor
  · intro _
    apply wp_call (sendBuffer_spec hs)
    · intro _ h' ⟨hs', hhanded, hwriter, hstreams, hproperties⟩
      apply wp_mono (resetPointer_spec hs')
      · intro _ h'' ⟨hidle, hstream, hstart, hstreams', hproperties'⟩
        refine ⟨⟨hidle.toSendable, ?_, ?_, ?_, ?_, ?_⟩, hidle⟩
        · rw [produced, pending, hidle.dataPtr_eq, slice_self, hstream, hhanded]
        · have hle := hs.start_le
          rw [hidle.dataPtr_eq, hstart, hwriter, List.length_nil]
          omega
        · rw [hstart, hwriter]
        · rw [hstreams', hstreams]
        · rw [hproperties', hproperties]
      · exact fun _ _ ↦ id
    · exact fun _ _ ↦ id
  · intro hempty
    rw [wp_pure]
    exact ⟨.refl hs, hs, Decidable.not_not.mp hempty⟩

theorem makeRoom_put (hs : Sendable h) (key : List UInt8) :
    wp (makeRoom key) (fun _ h' ↦ Put [] h h') (fun _ _ ↦ False) h := by
  rw [makeRoom, wp_bind, wp_get, wp_ite]
  constructor
  · intro _
    apply wp_mono (flushOutput_spec hs)
    · exact fun _ _ ↦ And.left
    · exact fun _ _ ↦ id
  · exact fun _ ↦ .refl hs

/-- Behind `makeRoom` there is room for the key. -/
theorem makeRoom_spec (hs : Sendable h) {key : List UInt8} (hkey : key.length < 0xFFFF) :
    wp (makeRoom key) (fun _ h' ↦ Put [] h h' ∧
      h'.writer.dataPtr + (2 + key.length : ℕ) ≤ h'.writer.dataEnd) (fun _ _ ↦ False) h := by
  have hend := hs.end_eq
  have hstart := hs.start_le
  have hle := hs.ptr_le
  rw [basicWriterBufferSize] at hend
  rw [makeRoom, wp_bind, wp_get, wp_ite]
  constructor
  · intro _
    apply wp_mono (flushOutput_spec hs)
    · intro _ h' ⟨hput, hidle⟩
      have hend' := hidle.end_eq
      have hptr := hidle.dataPtr_eq
      rw [basicWriterBufferSize] at hend'
      refine ⟨hput, ?_⟩
      omega
    · exact fun _ _ ↦ id
  · intro hroom
    rw [wp_pure]
    rw [remaining] at hroom
    refine ⟨.refl hs, ?_⟩
    omega

theorem writeKeys_put (hs : Sendable h) {keys : List (List UInt8)}
    (hkeys : ∀ key ∈ keys, key.length < 0xFFFF) :
    wp (writeKeys keys) (fun _ h' ↦ Put (keys.flatMap encodeKey) h h') (fun _ _ ↦ False) h := by
  induction keys generalizing h with
  | nil => exact wp_pure.mpr (.refl hs)
  | cons key keys ih =>
    rw [List.forall_mem_cons] at hkeys
    apply wp_call (makeRoom_spec hs hkeys.1)
    · intro _ h₁ ⟨hroom, hfits⟩
      apply wp_call (writeUTF8_put hroom.sendable hkeys.1 hfits)
      · intro _ h₂ hkey
        apply wp_mono (ih hkey.sendable hkeys.2)
        · intro _ h₃ hrest
          exact (hroom.trans hkey).trans hrest
        · exact fun _ _ ↦ id
      · exact fun _ _ ↦ id
    · exact fun _ _ ↦ id

/-- What precedes the keys: the code of the request, its number and the number of keys. -/
theorem requestGetStreams_header {post : ℕ → SessionHandler → Prop} {fail : SessionError → SessionHandler → Prop}
    (hs : Sendable h) (hroom : h.writer.dataPtr + 16 ≤ h.writer.dataEnd) (keys : List (List UInt8))
    (hrest : ∀ h', Put (streamsHeader (h.nStreamDefRequestsSent + 1) keys.length)
        { h with nStreamDefRequestsSent := h.nStreamDefRequestsSent + 1 } h' →
      wp (do writeKeys keys; flushOutput; return h.nStreamDefRequestsSent + 1) post fail h') :
    wp (requestGetStreams keys) post fail h := by
  rw [requestGetStreams, wp_bind]
  apply wp_mono (putWord_put hs reqGetStreams (by push_cast; omega))
  · intro _ h₁ hcode
    have hptr := hcode.dataPtr_le
    have hlimit := hs.end_of_put hcode
    rw [length_bigEndian] at hptr
    rw [wp_bind, wp_modify, wp_bind, wp_get, hcode.streams_eq, wp_bind]
    have hstep := hcode.countStreams (h.nStreamDefRequestsSent + 1)
    apply wp_mono (putWord_put hstep.sendable _ (by push_cast at hptr ⊢; omega))
    · intro _ h₂ hnumber
      have hptr' : h₂.writer.dataPtr ≤ h₁.writer.dataPtr + _ := hnumber.dataPtr_le
      have hlimit' : h₂.writer.dataEnd = h₁.writer.dataEnd := hstep.sendable.end_of_put hnumber
      rw [length_bigEndian] at hptr'
      rw [wp_bind]
      apply wp_mono (putWord_put hnumber.sendable _ (by push_cast at hptr hptr' ⊢; omega))
      · intro _ h₃ hcount
        exact hrest h₃ ((hstep.trans hnumber).trans hcount)
      · exact fun _ _ ↦ False.elim
    · exact fun _ _ ↦ False.elim
  · exact fun _ _ ↦ False.elim

theorem requestGetStreams_put (hs : Sendable h) (hroom : h.writer.dataPtr + 16 ≤ h.writer.dataEnd)
    {keys : List (List UInt8)} (hkeys : ∀ key ∈ keys, key.length < 0xFFFF) :
    wp (requestGetStreams keys)
      (fun _ h' ↦ Put (RequestRecord.encode ⟨h.nStreamDefRequestsSent + 1, .getStreams keys⟩)
        { h with nStreamDefRequestsSent := h.nStreamDefRequestsSent + 1 } h' ∧ Idle h')
      (fun _ _ ↦ False) h := by
  apply requestGetStreams_header hs hroom
  intro h₁ hheader
  rw [wp_bind]
  apply wp_mono (writeKeys_put hheader.sendable hkeys)
  · intro _ h₂ hwritten
    rw [wp_bind]
    apply wp_mono (flushOutput_spec hwritten.sendable)
    · intro _ h₃ ⟨hflush, hidle⟩
      rw [wp_pure]
      have hput := (hheader.trans hwritten).trans hflush
      rw [List.append_nil] at hput
      exact ⟨hput, hidle⟩
    · exact fun _ _ ↦ id
  · exact fun _ _ ↦ id

/-- A key that is too long leaves the header behind. -/
theorem requestGetStreams_throws (hs : Sendable h) (hroom : h.writer.dataPtr + 16 ≤ h.writer.dataEnd)
    {key : List UInt8} (hkey : 0xFFFF ≤ key.length) (keys : List (List UInt8)) :
    wp (requestGetStreams (key :: keys)) (fun _ _ ↦ False)
      (fun _ h' ↦ Put (streamsHeader (h.nStreamDefRequestsSent + 1) (keys.length + 1))
        { h with nStreamDefRequestsSent := h.nStreamDefRequestsSent + 1 } h') h := by
  apply requestGetStreams_header hs hroom
  intro h₁ hheader
  rw [writeKeys, wp_bind]
  apply wp_call (makeRoom_put hheader.sendable key)
  · intro _ h₂ hmade
    have hput := hheader.trans hmade
    rw [List.append_nil] at hput
    rw [wp_bind, onWriter, wp_zoom, writeUTF8, if_pos hkey]
    exact hput
  · exact fun _ _ ↦ False.elim

theorem requestGetProperty_put (hs : Idle h) {key : List UInt8} (hkey : key.length < 0xFFFF) (property : ℤ) :
    wp (requestGetProperty key property)
      (fun _ h' ↦ Put (RequestRecord.encode ⟨h.nPropertyRequestsSent + 1, .getProperty key property⟩)
        { h with nPropertyRequestsSent := h.nPropertyRequestsSent + 1 } h' ∧ Idle h')
      (fun _ _ ↦ False) h := by
  have hend := hs.end_eq
  have hstart := hs.dataPtr_eq
  rw [basicWriterBufferSize] at hend
  rw [requestGetProperty, wp_bind]
  apply wp_mono (putWord_put hs.toSendable reqGetStreamProperty (by push_cast; omega))
  · intro _ h₁ hcode
    have hptr := hcode.dataPtr_le
    have hlimit := hs.toSendable.end_of_put hcode
    rw [length_bigEndian] at hptr
    rw [wp_bind, wp_modify, wp_bind, wp_get, hcode.properties_eq, wp_bind]
    have hstep := hcode.countProperties (h.nPropertyRequestsSent + 1)
    apply wp_mono (putWord_put hstep.sendable _ (by push_cast at hptr ⊢; omega))
    · intro _ h₂ hnumber
      have hptr' : h₂.writer.dataPtr ≤ h₁.writer.dataPtr + _ := hnumber.dataPtr_le
      have hlimit' : h₂.writer.dataEnd = h₁.writer.dataEnd := hstep.sendable.end_of_put hnumber
      rw [length_bigEndian] at hptr'
      rw [wp_bind]
      apply wp_mono (writeUTF8_put hnumber.sendable hkey (by push_cast at hptr hptr' ⊢; omega))
      · intro _ h₃ hwritten
        have hptr'' := hwritten.dataPtr_le
        have hlimit'' := hnumber.sendable.end_of_put hwritten
        rw [encodeKey, List.length_append, length_bigEndian] at hptr''
        rw [wp_bind]
        apply wp_mono (putWord_put hwritten.sendable property (by push_cast at hptr hptr' hptr'' ⊢; omega))
        · intro _ h₄ hproperty
          rw [wp_bind]
          apply wp_mono (flushOutput_spec hproperty.sendable)
          · intro _ h₅ ⟨hflush, hidle⟩
            rw [wp_pure]
            have hput := (((hstep.trans hnumber).trans hwritten).trans hproperty).trans hflush
            rw [List.append_nil] at hput
            exact ⟨hput, hidle⟩
          · exact fun _ _ ↦ id
        · exact fun _ _ ↦ False.elim
      · exact fun _ _ ↦ False.elim
    · exact fun _ _ ↦ False.elim
  · exact fun _ _ ↦ False.elim

end

/-! ## Runs -/

/-- Requests with their numbers, from the counts of those sent. -/
def numbered : ℕ → ℕ → List SessionRequest → List RequestRecord
  | _, _, [] => []
  | streams, properties, .getStreams keys :: rest =>
    ⟨streams + 1, .getStreams keys⟩ :: numbered (streams + 1) properties rest
  | streams, properties, .getProperty key id :: rest =>
    ⟨properties + 1, .getProperty key id⟩ :: numbered streams (properties + 1) rest

theorem numbered_requests (streams properties : ℕ) (requests : List SessionRequest) :
    (numbered streams properties requests).map RequestRecord.request = requests := by
  induction requests generalizing streams properties with
  | nil => rfl
  | cons request rest ih =>
    cases request with
    | getStreams keys => rw [numbered, List.map_cons, ih]
    | getProperty key id => rw [numbered, List.map_cons, ih]

/-- The numbers of one kind go up by one. -/
theorem numbered_ids (kind : Bool) (streams properties : ℕ) (requests : List SessionRequest) :
    ∃ count, ((numbered streams properties requests).filter fun record ↦
      record.request.isGetStreams = kind).map RequestRecord.id =
        List.range' ((if kind then streams else properties) + 1) count := by
  induction requests generalizing streams properties with
  | nil => exact ⟨0, rfl⟩
  | cons request rest ih =>
    cases request with
    | getStreams keys =>
      obtain ⟨count, hcount⟩ := ih (streams + 1) properties
      cases kind with
      | true => exact ⟨count + 1, congrArg (List.cons (streams + 1)) hcount⟩
      | false => exact ⟨count, hcount⟩
    | getProperty key id =>
      obtain ⟨count, hcount⟩ := ih streams (properties + 1)
      cases kind with
      | true => exact ⟨count, hcount⟩
      | false => exact ⟨count + 1, congrArg (List.cons (properties + 1)) hcount⟩

theorem consecutive_range' (first count : ℕ) : Consecutive (List.range' first count) := by
  refine ⟨first, ?_⟩
  rw [List.length_range']

section

variable {h : SessionHandler}

theorem Idle.produced_eq (hs : Idle h) : produced h = h.ioStream.handed := by
  rw [produced, pending, hs.dataPtr_eq, slice_self, List.append_nil]

theorem produced_countStreams (streams : ℕ) : produced { h with nStreamDefRequestsSent := streams } = produced h := rfl

/-- A request that was written whole and flushed. -/
theorem handed_of_put {data : List UInt8} {h h' : SessionHandler} (hs : Idle h) (hs' : Idle h')
    (hput : Put data h h') : h'.ioStream.handed = h.ioStream.handed ++ data := by
  rw [← hs'.produced_eq, ← hs.produced_eq]
  exact hput.produced_eq

theorem Idle.count (hs : Idle h) (streams properties : ℕ) :
    Idle { h with nStreamDefRequestsSent := streams, nPropertyRequestsSent := properties } :=
  ⟨hs.toSendable.count streams properties, hs.dataPtr_eq⟩

theorem exec_getStreams (keys : List (List UInt8)) :
    finalState (SessionRequest.getStreams keys).call.exec h = finalState (requestGetStreams keys) h :=
  finalState_discard

theorem exec_getProperty (key : List UInt8) (id : ℤ) :
    finalState (SessionRequest.getProperty key id).call.exec h = finalState (requestGetProperty key id) h :=
  finalState_discard

/-- What a call that fits does. -/
theorem exec_fits (hs : Idle h) {request : SessionRequest} (hfits : request.Fits) (rest : List SessionRequest) :
    ∃ h' record, finalState request.call.exec h = h' ∧ Idle h' ∧
      h'.ioStream.handed = h.ioStream.handed ++ record.encode ∧
      numbered h.nStreamDefRequestsSent h.nPropertyRequestsSent (request :: rest) =
        record :: numbered h'.nStreamDefRequestsSent h'.nPropertyRequestsSent rest := by
  cases request with
  | getStreams keys =>
    have hend := hs.end_eq
    have hptr := hs.dataPtr_eq
    rw [basicWriterBufferSize] at hend
    obtain ⟨value, h', hrun, hput, hidle⟩ :=
      exists_ok_of_wp (requestGetStreams_put hs.toSendable (by omega) hfits.2)
    have hhanded := handed_of_put (hs.count (h.nStreamDefRequestsSent + 1) h.nPropertyRequestsSent) hidle hput
    refine ⟨h', _, ?_, hidle, hhanded, ?_⟩
    · rw [exec_getStreams, finalState, hrun]
    · rw [numbered, hput.streams_eq, hput.properties_eq]
  | getProperty key id =>
    obtain ⟨value, h', hrun, hput, hidle⟩ := exists_ok_of_wp (requestGetProperty_put hs hfits id)
    have hhanded := handed_of_put (hs.count h.nStreamDefRequestsSent (h.nPropertyRequestsSent + 1)) hidle hput
    refine ⟨h', _, ?_, hidle, hhanded, ?_⟩
    · rw [exec_getProperty, finalState, hrun]
    · rw [numbered, hput.streams_eq, hput.properties_eq]

theorem runCalls_fits (hs : Idle h) (requests : List SessionRequest) (hfits : ∀ request ∈ requests, request.Fits) :
    (runCalls (requests.map SessionRequest.call) h).ioStream.handed = h.ioStream.handed ++
      (numbered h.nStreamDefRequestsSent h.nPropertyRequestsSent requests).flatMap RequestRecord.encode := by
  induction requests generalizing h with
  | nil => exact (List.append_nil _).symm
  | cons request rest ih =>
    rw [List.forall_mem_cons] at hfits
    obtain ⟨h', record, hrun, hidle, hhanded, hnumbered⟩ := exec_fits hs hfits.1 rest
    rw [hnumbered, List.flatMap_cons, ← List.append_assoc, ← hhanded, ← ih hidle hfits.2, ← hrun]
    rfl

/-- Calls whose keys fit write whole requests, however many there are. -/
theorem requests_whole (hs : Idle h) (requests : List SessionRequest)
    (hfits : ∀ request ∈ requests, request.Fits) :
    ∃ bytes, (runCalls (requests.map SessionRequest.call) h).ioStream.handed = h.ioStream.handed ++ bytes ∧
      WholeRequests requests bytes := by
  refine ⟨_, runCalls_fits hs requests hfits, _, rfl, ?_, ?_, ?_⟩
  · intro record hmem
    apply hfits
    rw [← numbered_requests h.nStreamDefRequestsSent h.nPropertyRequestsSent requests]
    exact List.mem_map_of_mem hmem
  · intro kind
    obtain ⟨count, hcount⟩ := numbered_ids kind h.nStreamDefRequestsSent h.nPropertyRequestsSent requests
    rw [hcount]
    exact consecutive_range' _ _
  · rw [numbered_requests]

end

/-- A session that was just opened, with connections that accept a buffer whole. -/
theorem connectedSession_idle (count : ℕ) : Idle (connectedSession count) where
  connected := rfl
  outputClosed := rfl
  accepts _ := ⟨count, rfl⟩
  end_eq := rfl
  start_le := le_refl _
  ptr_le := Int.natCast_nonneg 0x11000
  dataPtr_eq := rfl

theorem requests_whole_connected :
    ∃ bytes, (runCalls ([.getStreams [[0x61]], .getProperty [0x61] 1].map SessionRequest.call)
        (connectedSession 0x11000)).ioStream.handed = (connectedSession 0x11000).ioStream.handed ++ bytes ∧
      WholeRequests [.getStreams [[0x61]], .getProperty [0x61] 1] bytes := by
  apply requests_whole (connectedSession_idle 0x11000)
  intro request hmem
  rcases List.mem_cons.mp hmem with rfl | hmem
  · constructor
    · decide
    · decide
  · rw [List.mem_singleton.mp hmem]
    exact (by decide : 1 < 0xFFFF)

theorem length_streamsHeader (id count : ℕ) : (streamsHeader id count).length = 16 := by
  rw [streamsHeader, List.length_append, List.length_append, length_bigEndian, length_bigEndian,
    length_bigEndian]

/-- Headers in front of any bytes tell the number of keys. -/
theorem streamsHeader_count {id id' count count' : ℕ} {more more' : List UInt8}
    (heq : streamsHeader id count ++ more = streamsHeader id' count' ++ more') :
    bigEndian 4 (word 4 count) = bigEndian 4 (word 4 count') := by
  have hheader := (List.append_inj heq (by rw [length_streamsHeader, length_streamsHeader])).1
  rw [streamsHeader, streamsHeader] at hheader
  exact (List.append_inj' hheader (by rw [length_bigEndian, length_bigEndian])).2

/-- One byte more than `writeUTF8` takes. -/
@[irreducible]
def tooLongKey : List UInt8 := List.replicate 0xFFFF 0x61

theorem length_tooLongKey : tooLongKey.length = 0xFFFF := by
  unfold tooLongKey
  exact List.length_replicate

/-- A request for a key that is too long, then a request for all streams. -/
def afterTooLong : List SessionRequest := [.getStreams [tooLongKey], .getStreams []]

/-- The header of the first request is sent with the second one. -/
theorem afterTooLong_handed {h : SessionHandler} (hs : Idle h) :
    (runCalls (afterTooLong.map SessionRequest.call) h).ioStream.handed = h.ioStream.handed ++
      streamsHeader (h.nStreamDefRequestsSent + 1) 1 ++ streamsHeader (h.nStreamDefRequestsSent + 1 + 1) 0 := by
  have hend := hs.end_eq
  have hstart := hs.dataPtr_eq
  rw [basicWriterBufferSize] at hend
  have hput : Put (streamsHeader (h.nStreamDefRequestsSent + 1) 1)
      { h with nStreamDefRequestsSent := h.nStreamDefRequestsSent + 1 }
      (finalState (requestGetStreams [tooLongKey]) h) := by
    apply finalState_of_wp
    apply wp_mono (requestGetStreams_throws hs.toSendable (by omega) length_tooLongKey.ge [])
    · exact fun _ _ ↦ False.elim
    · exact fun _ _ ↦ id
  have hrun : runCalls (afterTooLong.map SessionRequest.call) h =
      finalState (requestGetStreams []) (finalState (requestGetStreams [tooLongKey]) h) := by
    rw [afterTooLong, List.map_cons, List.map_cons, List.map_nil, runCalls, List.foldl_cons, List.foldl_cons,
      List.foldl_nil, exec_getStreams, exec_getStreams]
  rw [hrun]
  generalize finalState (requestGetStreams [tooLongKey]) h = middle at hput
  have hptr : middle.writer.dataPtr ≤ h.writer.dataPtr + _ := hput.dataPtr_le
  have hlimit : middle.writer.dataEnd = h.writer.dataEnd :=
    (hs.toSendable.count (h.nStreamDefRequestsSent + 1) h.nPropertyRequestsSent).end_of_put hput
  have hsent : middle.nStreamDefRequestsSent = h.nStreamDefRequestsSent + 1 := hput.streams_eq
  have hfirstData := hput.produced_eq
  rw [length_streamsHeader] at hptr
  rw [produced_countStreams (h.nStreamDefRequestsSent + 1), hs.produced_eq] at hfirstData
  obtain ⟨value, h', hsecond, hput', hidle⟩ :=
    exists_ok_of_wp (requestGetStreams_put hput.sendable (by omega) (List.forall_mem_nil _))
  have hsecondData := hput'.produced_eq
  rw [produced_countStreams (middle.nStreamDefRequestsSent + 1), hfirstData, hidle.produced_eq, hsent, RequestRecord.encode, List.flatMap_nil,
    List.append_nil] at hsecondData
  rw [finalState, hsecond, hsecondData]
  rfl

theorem request_left_behind :
    ¬ ∃ bytes, (runCalls (afterTooLong.map SessionRequest.call) (connectedSession 0x11000)).ioStream.handed =
        (connectedSession 0x11000).ioStream.handed ++ bytes ∧ WholeRequests afterTooLong bytes := by
  rintro ⟨bytes, hbytes, records, hrecords, hfits, -, hsub⟩
  have heq : streamsHeader 1 1 ++ streamsHeader 2 0 = records.flatMap RequestRecord.encode := by
    rw [afterTooLong_handed (connectedSession_idle 0x11000), List.append_assoc] at hbytes
    rw [← hrecords]
    exact List.append_cancel_left hbytes
  cases records with
  | nil =>
    have hlength := congrArg List.length heq
    rw [List.length_append, length_streamsHeader] at hlength
    cases hlength
  | cons record rest =>
    have hmem : record.request ∈ afterTooLong := hsub.subset (List.mem_cons_self ..)
    have hfirst := hfits record (List.mem_cons_self ..)
    obtain ⟨id, request⟩ := record
    rcases List.mem_cons.mp hmem with hlong | hempty
    · cases hlong
      have hkey := hfirst.2 tooLongKey (List.mem_singleton_self _)
      rw [length_tooLongKey] at hkey
      exact absurd hkey (lt_irrefl _)
    · cases List.mem_singleton.mp hempty
      rw [List.flatMap_cons, RequestRecord.encode, List.append_assoc] at heq
      have hcount := streamsHeader_count heq
      exact absurd hcount (by decide)

end DxApi.Session
