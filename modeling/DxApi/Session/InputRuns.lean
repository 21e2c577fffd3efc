import DxApi.Session.ServerMessages

/-!
# What the thread of the session handler hears

However the bytes of the server arrive, each turn that finds some handles one message: the streams of the cache
change as the message announces, and the requests that it calls for are handed to the connection with
consecutive numbers. A document that cannot be parsed is counted and passed over.

At the end the connection is closed. The buffer of the writer is freed by `cleanup`, which runs twice behind
a token that is not known.
-/

namespace DxApi.Session.HandlerThread

open Exec ByteMemory ByteOrder Decoding Net

/-! ## What a message calls for -/

namespace ServerMessage

/-- The event of the cache. -/
def event : ServerMessage → Option SessionEvent
  | streamDeleted key => some (.streamDeleted (nameOf key.value))
  | streamCreated key => some (.streamCreated (nameOf key.value))
  | streamRenamed oldKey newKey => some (.streamRenamed (nameOf oldKey.value) (nameOf newKey.value))
  | streamsDefinition _ definitions => definitions.streams.map .streamsDefinition
  | _ => none

def announcements (message : ServerMessage) : List Announcement := message.event.elim [] SessionEvent.announcements

/-- The requests that are made while the message is handled, each with its keys. -/
def asked : ServerMessage → List (List (List UInt8))
  | streamPropertyChanged key _ => [[key.value]]
  | streamsChanged => [[]]
  | _ => []

/-- The streams that are asked for at the end of the turn. -/
def needed : ServerMessage → List (List UInt8)
  | streamCreated key => [key.value]
  | streamRenamed _ newKey => [newKey.value]
  | _ => []

/-- All requests, each with its keys. -/
def requests (message : ServerMessage) : List (List (List UInt8)) := message.asked ++ message.needed.map fun key ↦ [key]

def isDefinition : ServerMessage → Bool
  | streamsDefinition _ _ => true
  | _ => false

def isProperty : ServerMessage → Bool
  | streamProperty _ _ _ => true
  | _ => false

def Readable : ServerMessage → Prop
  | streamsDefinition _ definitions => definitions.Readable
  | _ => True

end ServerMessage

/-- Requests for streams were handed over, with the next numbers. -/
structure Sent (requests : List (List (List UInt8))) (h h' : SessionHandler) : Prop where
  idle : Idle h'
  handed_eq : h'.ioStream.handed = h.ioStream.handed ++
    (numbered h.nStreamDefRequestsSent h.nPropertyRequestsSent (requests.map .getStreams)).flatMap RequestRecord.encode
  streams_eq : h'.nStreamDefRequestsSent = h.nStreamDefRequestsSent + requests.length
  properties_eq : h'.nPropertyRequestsSent = h.nPropertyRequestsSent

/-- Messages were handled. -/
structure Heard (messages : List ServerMessage) (t t' : HandlerThread) : Prop where
  sent : Sent (messages.flatMap ServerMessage.requests) t.handler t'.handler
  streams_eq : t'.cache.streams = (messages.flatMap ServerMessage.announcements).foldl Announcement.apply t.cache.streams
  needed_eq : t'.cache.neededStreamDefs = []
  received_eq : t'.cache.nStreamDefRequestsReceived =
    t.cache.nStreamDefRequestsReceived + messages.countP ServerMessage.isDefinition
  properties_eq : t'.nPropertyRequestsReceived = t.nPropertyRequestsReceived + messages.countP ServerMessage.isProperty
  frees_eq : t'.frees = t.frees

/-! ## Keys -/

theorem bytesOf_nameOf (bytes : List UInt8) : bytesOf (nameOf bytes) = bytes := by
  have hchar (byte : UInt8) : UInt8.ofNat (Char.ofNat byte.toNat).toNat = byte := by
    have hlt := byte.toNat_lt
    have hvalid : byte.toNat.isValidChar := .inl (by omega)
    rw [Char.ofNat, dif_pos hvalid]
    exact UInt8.ofNat_toNat
  rw [bytesOf, nameOf, String.toList_ofList, List.map_map]
  calc
    bytes.map ((fun c : Char ↦ UInt8.ofNat c.toNat) ∘ fun byte ↦ Char.ofNat byte.toNat) = bytes.map id := by
      congr 1
      funext byte
      exact hchar byte
    _ = bytes := List.map_id bytes

/-! ## Requests -/

theorem Utf8Text.length_value_lt (t : Utf8Text) : t.value.length < 0xFFFF := by
  obtain ⟨content, fits⟩ := t
  cases content with
  | none => exact (by decide : 0 < 0xFFFF)
  | some text => exact fits text rfl

section

variable {h h' h'' : SessionHandler} {requests more : List (List (List UInt8))}

theorem numbered_getStreams (streams properties : ℕ) (requests more : List (List (List UInt8))) :
    numbered streams properties ((requests ++ more).map .getStreams) =
      numbered streams properties (requests.map .getStreams) ++
        numbered (streams + requests.length) properties (more.map .getStreams) := by
  induction requests generalizing streams with
  | nil => rfl
  | cons keys requests ih =>
    rw [List.cons_append, List.map_cons, List.map_cons, numbered, numbered, ih, List.cons_append, List.length_cons,
      Nat.add_right_comm, Nat.add_assoc]

theorem Sent.refl (hidle : Idle h) : Sent [] h h where
  idle := hidle
  handed_eq := (List.append_nil _).symm
  streams_eq := rfl
  properties_eq := rfl

theorem Sent.trans (hfirst : Sent requests h h') (hsecond : Sent more h' h'') : Sent (requests ++ more) h h'' where
  idle := hsecond.idle
  handed_eq := by
    rw [hsecond.handed_eq, hfirst.handed_eq, hfirst.streams_eq, hfirst.properties_eq, numbered_getStreams,
      List.flatMap_append, List.append_assoc]
  streams_eq := by
    rw [hsecond.streams_eq, hfirst.streams_eq, List.length_append, Nat.add_assoc]
  properties_eq := hsecond.properties_eq.trans hfirst.properties_eq

theorem requestGetStreams_sent (hidle : Idle h) {keys : List (List UInt8)} (hkeys : ∀ key ∈ keys, key.length < 0xFFFF) :
    wp (requestGetStreams keys) (fun _ h' ↦ Sent [keys] h h') (fun _ _ ↦ False) h := by
  have hend := hidle.end_eq
  have hptr := hidle.dataPtr_eq
  rw [basicWriterBufferSize] at hend
  apply wp_mono (requestGetStreams_put hidle.toSendable (by omega) hkeys)
  · rintro _ h' ⟨hput, hidle'⟩
    constructor
    · exact hidle'
    · rw [handed_of_put (hidle.count (h.nStreamDefRequestsSent + 1) h.nPropertyRequestsSent) hidle' hput]
      exact congrArg _ (List.append_nil _).symm
    · exact hput.streams_eq
    · exact hput.properties_eq
  · exact fun _ _ ↦ id

end

/-! ## The cache -/

section

variable {s : SessionCache}

/-- The needed keys and the count of the definitions stay as they are. -/
def Untouched (needed : List String) (count : ℕ) (s : SessionCache) : Prop :=
  s.neededStreamDefs = needed ∧ s.nStreamDefRequestsReceived = count

variable {needed : List String} {count : ℕ}

theorem getStream_untouched (key : String) : Preserves (Untouched needed count) (getStream key) :=
  preserves_get.bind fun _ ↦ preserves_pure _

theorem putStream_untouched (key : String) (stream : Option CachedStream) :
    Preserves (Untouched needed count) (modify (putStream key stream) : CacheM PUnit) :=
  preserves_modify fun _ h ↦ h

theorem onStreamDeleted_untouched (key : String) : Preserves (Untouched needed count) (onStreamDeleted key) := by
  apply Preserves.bind
  · apply (getStream_untouched key).bind
    intro found
    apply Preserves.ite
    · exact (putStream_untouched key none).bind fun _ ↦ preserves_pure _
    · exact preserves_pure _
  · exact fun _ ↦ preserves_pure _

theorem defineStream_untouched (info : StreamInfo) (stream : Option CachedStream) :
    Preserves (Untouched needed count) (defineStream info stream) := by
  cases stream with
  | none => exact (getStream_untouched _).bind fun _ ↦ (preserves_throw _).ite (putStream_untouched _ _)
  | some stream => exact putStream_untouched _ _

theorem defineStreams_untouched (newStreams : List StreamInfo) :
    Preserves (Untouched needed count) (defineStreams newStreams) := by
  induction newStreams with
  | nil => exact preserves_pure _
  | cons info rest ih => exact (getStream_untouched _).bind fun _ ↦ (defineStream_untouched _ _).bind fun _ ↦ ih

theorem receive_STREAMS_DEFINITION_counted (newStreams : List StreamInfo) :
    wp (Session.receive_STREAMS_DEFINITION newStreams)
      (fun _ s' ↦ Untouched s.neededStreamDefs (s.nStreamDefRequestsReceived + 1) s') (fun _ _ ↦ True) s := by
  have hbody : Preserves (Untouched s.neededStreamDefs s.nStreamDefRequestsReceived) (do
      defineStreams newStreams
      modify fun s ↦ { s with knownStreamDefs := (newStreams.map StreamInfo.key).foldl addKey s.knownStreamDefs }) :=
    (defineStreams_untouched newStreams).bind fun _ ↦ preserves_modify fun _ h ↦ h
  rw [Session.receive_STREAMS_DEFINITION, wp_bind, wp_onException]
  apply wp_mono (hbody s ⟨rfl, rfl⟩)
  · intro _ s' hs'
    rw [wp_modify]
    exact ⟨hs'.1, congrArg (· + 1) hs'.2⟩
  · exact fun _ _ _ ↦ trivial

end

/-! ## One message -/

/-- Nothing waits to be sent or asked for. -/
structure Listening (t : HandlerThread) : Prop where
  idle : Idle t.handler
  needed_eq : t.cache.neededStreamDefs = []

/-- A message was handled, up to the end of the turn. -/
structure Received (message : ServerMessage) (rest : List UInt8) (t t' : HandlerThread) : Prop where
  incoming_eq : t'.incoming = rest
  sent : Sent message.asked t.handler t'.handler
  streams_eq : t'.cache.streams = message.announcements.foldl Announcement.apply t.cache.streams
  needed_eq : t'.cache.neededStreamDefs = message.needed.map nameOf
  received_eq : t'.cache.nStreamDefRequestsReceived =
    t.cache.nStreamDefRequestsReceived + if message.isDefinition then 1 else 0
  properties_eq : t'.nPropertyRequestsReceived = t.nPropertyRequestsReceived + if message.isProperty then 1 else 0
  frees_eq : t'.frees = t.frees

section

variable {α : Type} {program : InputM α} {bytes rest : List UInt8} {value : α} {t : HandlerThread}

theorem onInput_whole (h : Decodes .disconnected program bytes value) (hincoming : t.incoming = bytes ++ rest) :
    onInput program t = .ok value { t with incoming := rest } := by
  rw [onInput, zoom, hincoming, h.whole]

theorem onInput_cut (h : Decodes .disconnected program bytes value) (hends : EndsBefore t.incoming bytes) :
    onInput program t = .error .disconnected { t with incoming := [] } := by
  rw [onInput, zoom, h.part _ hends]
  rfl

variable {post : α → HandlerThread → Prop} {fail : ThreadError → HandlerThread → Prop}

theorem wp_onInput (h : Decodes .disconnected program bytes value) (hincoming : t.incoming = bytes ++ rest) :
    wp (onInput program) post fail t ↔ post value { t with incoming := rest } := wp_ok (onInput_whole h hincoming)

end

section

variable {t : HandlerThread} {rest : List UInt8}

theorem wp_onHandler {post : ℕ → HandlerThread → Prop} {fail : ThreadError → HandlerThread → Prop} (hidle : Idle t.handler)
    {keys : List (List UInt8)} (hkeys : ∀ key ∈ keys, key.length < 0xFFFF)
    (hpost : ∀ number h', Sent [keys] t.handler h' → post number { t with handler := h' }) :
    wp (onHandler (requestGetStreams keys)) post fail t := by
  rw [onHandler, wp_zoom]
  apply wp_mono (requestGetStreams_sent hidle hkeys)
  · exact hpost
  · exact fun _ _ ↦ False.elim

theorem receive_message (ht : Listening t) {message : ServerMessage} (hreadable : message.Readable)
    (hincoming : t.incoming = message.body ++ rest) :
    wp (receive message.code) (fun result t' ↦ result = .ok ∧ Received message rest t t')
      (fun error t' ↦ error = .runtimeError ∧ Received message rest t t') t := by
  cases message with
  | streamPropertyChanged key property =>
    rw [ServerMessage.body, List.append_assoc] at hincoming
    change wp receive_STREAM_PROPERTY_CHANGED _ _ t
    rw [receive_STREAM_PROPERTY_CHANGED, wp_bind, wp_onInput (decodes_readUTF8 key) hincoming, wp_bind, readPropertyId,
      wp_onInput (decodes_readByte property) rfl, wp_bind]
    apply wp_onHandler
    · exact ht.idle
    · exact List.forall_mem_singleton.mpr key.length_value_lt
    · intro number h' hsent
      rw [wp_pure]
      exact ⟨rfl, rfl, hsent, rfl, ht.needed_eq, rfl, rfl, rfl⟩
  | streamDeleted key =>
    change wp receive_STREAM_DELETED _ _ t
    rw [receive_STREAM_DELETED, wp_bind, wp_onInput (decodes_readUTF8 key) hincoming, wp_bind, onCache, wp_zoom]
    apply wp_mono (wp_and (onStreamDeleted_spec _) (onStreamDeleted_untouched _ _ ⟨ht.needed_eq, rfl⟩))
    · rintro _ s' ⟨hstreams, hneeded, hcount⟩
      rw [wp_pure]
      exact ⟨rfl, rfl, .refl ht.idle, hstreams, hneeded, hcount, rfl, rfl⟩
    · exact fun _ _ h ↦ h.1.elim
  | streamCreated key =>
    change wp receive_STREAM_CREATED _ _ t
    rw [receive_STREAM_CREATED, wp_bind, wp_onInput (decodes_readUTF8 key) hincoming, wp_bind, onCache, wp_zoom,
      Session.receive_STREAM_CREATED, neededStream, wp_modify, wp_pure]
    refine ⟨rfl, rfl, .refl ht.idle, rfl, ?_, rfl, rfl, rfl⟩
    change addKey t.cache.neededStreamDefs _ = _
    rw [ht.needed_eq]
    rfl
  | streamRenamed oldKey newKey =>
    rw [ServerMessage.body, List.append_assoc] at hincoming
    change wp receive_STREAM_RENAMED _ _ t
    rw [receive_STREAM_RENAMED, wp_bind, wp_onInput (decodes_readUTF8 oldKey) hincoming, wp_bind,
      wp_onInput (decodes_readUTF8 newKey) rfl, wp_bind, onCache, wp_zoom, Session.receive_STREAM_RENAMED, wp_bind]
    apply wp_mono (wp_and (onStreamDeleted_spec _) (onStreamDeleted_untouched _ _ ⟨ht.needed_eq, rfl⟩))
    · rintro _ s' ⟨hstreams, hneeded, hcount⟩
      rw [neededStream, wp_modify, wp_pure]
      refine ⟨rfl, rfl, .refl ht.idle, hstreams, ?_, hcount, rfl, rfl⟩
      change addKey s'.neededStreamDefs _ = _
      rw [hneeded]
      rfl
    · exact fun _ _ h ↦ h.1.elim
  | streamsDefinition requestId definitions =>
    have hread := readStreams_whole requestId hreadable rest
    rw [ServerMessage.body] at hincoming
    rw [← hincoming] at hread
    change wp receive_STREAMS_DEFINITION _ _ t
    rw [receive_STREAMS_DEFINITION, wp_bind, wp_onException, onInput, wp_zoom]
    cases hstreams : definitions.streams with
    | none =>
      rw [hstreams] at hread
      rw [wp_error hread, wp_bind, onCache, wp_zoom, wp_modify, wp_pure]
      refine ⟨rfl, rfl, .refl ht.idle, ?_, ht.needed_eq, rfl, rfl, rfl⟩
      rw [ServerMessage.announcements, ServerMessage.event, hstreams]
      rfl
    | some newStreams =>
      rw [hstreams] at hread
      rw [wp_ok hread, wp_bind, onCache, wp_zoom]
      apply wp_mono (wp_and (receive_STREAMS_DEFINITION_spec newStreams) (receive_STREAMS_DEFINITION_counted newStreams))
      · rintro _ s' ⟨happlied, hneeded, hcount⟩
        rw [wp_pure]
        refine ⟨rfl, rfl, .refl ht.idle, ?_, hneeded.trans ht.needed_eq, hcount, rfl, rfl⟩
        rw [ServerMessage.announcements, ServerMessage.event, hstreams]
        exact happlied
      · exact fun _ _ h ↦ h.1.elim
  | streamProperty requestId key value =>
    change wp receive_STREAM_PROPERTY _ _ t
    rw [receive_STREAM_PROPERTY, wp_bind, wp_attempt,
      wp_onInput (decodes_readProperty requestId key value) hincoming, wp_bind, wp_modify, wp_pure]
    exact ⟨rfl, rfl, .refl ht.idle, rfl, ht.needed_eq, rfl, rfl, rfl⟩
  | streamsChanged =>
    change wp receive_STREAMS_CHANGED _ _ t
    rw [receive_STREAMS_CHANGED, wp_bind]
    apply wp_onHandler ht.idle (List.forall_mem_nil _)
    intro number h' hsent
    rw [wp_pure]
    exact ⟨rfl, hincoming, hsent, rfl, ht.needed_eq, rfl, rfl, rfl⟩

end

/-! ## One turn -/

section

variable {t : HandlerThread} {rest : List UInt8} {arrived : ℕ}

/-- However many bytes have arrived, the first four are the code. -/
theorem receiveNext_of_code (harrived : arrived ≠ 0) {code : ℕ} (hcode : code < 256 ^ 4)
    (hincoming : t.incoming = bigEndian 4 code ++ rest) : receiveNext arrived t = receive code { t with incoming := rest } := by
  have hlength : (bigEndian 4 code).length = 4 := length_bigEndian 4 code
  generalize hk : min arrived 4 = k
  have hle : k ≤ 4 := by omega
  have htake : ((bigEndian 4 code).take k).length = k := List.length_take_of_le (by omega)
  have hbuf : (bigEndian 4 code).take k ≠ [] := List.ne_nil_of_length_pos (by omega)
  have htry : onInput (tryRead arrived 4) t =
      .ok ((bigEndian 4 code).take k) { t with incoming := (bigEndian 4 code).drop k ++ rest } := by
    have hne : bigEndian 4 code ++ rest ≠ [] := List.append_ne_nil_of_left_ne_nil (List.ne_nil_of_length_pos (by omega)) rest
    rw [onInput, zoom, hincoming, tryRead, if_neg harrived, if_neg hne, hk, List.take_append_of_le_length (by omega),
      List.drop_append_of_le_length (by omega)]
  have hmore : Decodes .disconnected (take ThreadError.disconnected (4 - k)) ((bigEndian 4 code).drop k) ((bigEndian 4 code).drop k) := by
    have hdecodes : Decodes .disconnected (take ThreadError.disconnected ((bigEndian 4 code).drop k).length)
        ((bigEndian 4 code).drop k) ((bigEndian 4 code).drop k) := decodes_take _
    rwa [List.length_drop, hlength] at hdecodes
  rw [receiveNext, run_bind_of_ok htry, if_pos hbuf, htake, run_bind_of_ok (onInput_whole hmore rfl), List.take_append_drop,
    ofBigEndian_bigEndian hcode]

theorem receiveNext_short (harrived : arrived ≠ 0) (hshort : t.incoming.length < 4) :
    receiveNext arrived t = .error .disconnected { t with incoming := [] } := by
  by_cases hempty : t.incoming = []
  · have htry : onInput (tryRead arrived 4) t = .error .disconnected { t with incoming := [] } := by
      rw [onInput, zoom, tryRead, if_neg harrived, if_pos hempty]
      rfl
    exact run_bind_of_error htry
  · generalize hk : min arrived 4 = k
    have hpos := List.length_pos_of_ne_nil hempty
    have hbuf : t.incoming.take k ≠ [] := List.ne_nil_of_length_pos (by rw [List.length_take]; omega)
    have htry : onInput (tryRead arrived 4) t = .ok (t.incoming.take k) { t with incoming := t.incoming.drop k } := by
      rw [onInput, zoom, tryRead, if_neg harrived, if_neg hempty, hk]
    have hmore : onInput (take .disconnected (4 - (t.incoming.take k).length)) { t with incoming := t.incoming.drop k } =
        .error .disconnected { t with incoming := [] } := by
      rw [onInput, zoom, take, if_neg (by rw [List.length_take, List.length_drop]; omega)]
      rfl
    rw [receiveNext, run_bind_of_ok htry, if_pos hbuf]
    exact run_bind_of_error hmore

theorem ServerMessage.code_lt (message : ServerMessage) : message.code < 256 ^ 4 := by
  cases message <;> simp [ServerMessage.code]

theorem Received.of_incoming {message : ServerMessage} {input : List UInt8} {t' : HandlerThread}
    (h : Received message rest { t with incoming := input } t') : Received message rest t t' :=
  ⟨h.incoming_eq, h.sent, h.streams_eq, h.needed_eq, h.received_eq, h.properties_eq, h.frees_eq⟩

theorem processInput_message (ht : Listening t) (harrived : arrived ≠ 0) {message : ServerMessage} (hreadable : message.Readable)
    (hincoming : t.incoming = message.encode ++ rest) :
    wp (processInput arrived) (fun result t' ↦ result = .ok ∧ Received message rest t t') (fun _ _ ↦ False) t := by
  rw [ServerMessage.encode, List.append_assoc] at hincoming
  have hbody : Listening { t with incoming := message.body ++ rest } := ⟨ht.idle, ht.needed_eq⟩
  rw [processInput, wp_bind, wp_get, wp_ite]
  constructor
  · intro _
    rw [wp_bind, wp_attempt, wp_congr (receiveNext_of_code harrived message.code_lt hincoming)]
    apply wp_mono (receive_message hbody hreadable rfl)
    · rintro result t' ⟨hresult, hreceived⟩
      exact ⟨hresult, hreceived.of_incoming⟩
    · rintro error t' ⟨herror, hreceived⟩
      subst herror
      exact ⟨rfl, hreceived.of_incoming⟩
  · exact fun hnot ↦ absurd ht.idle.connected hnot

theorem ServerMessage.needed_cases (message : ServerMessage) :
    message.needed = [] ∨ ∃ key : Utf8Text, message.needed = [key.value] := by
  cases message with
  | streamCreated key => exact .inr ⟨key, rfl⟩
  | streamRenamed oldKey newKey => exact .inr ⟨newKey, rfl⟩
  | _ => exact .inl rfl

theorem requestNeeded_nothing (order : List String → List String) (hneeded : t.cache.neededStreamDefs = []) :
    requestNeeded order t = .ok ⟨⟩ t := by
  rw [requestNeeded, run_get_bind, if_neg (not_not_intro hneeded)]
  rfl

theorem turn_message (ht : Listening t) {now : Turn} (hstop : now.shouldStop = false) (harrived : now.arrived ≠ 0)
    {message : ServerMessage} (hreadable : message.Readable) (hincoming : t.incoming = message.encode ++ rest) :
    wp (turn now) (fun again t' ↦ again = true ∧ Heard [message] t t' ∧ t'.incoming = rest) (fun _ _ ↦ False) t := by
  rw [turn, hstop, if_neg Bool.false_ne_true]
  apply wp_call (processInput_message ht harrived hreadable hincoming)
  · rintro result t' ⟨hresult, hreceived⟩
    have hsent := hreceived.sent
    have hneeded := hreceived.needed_eq
    have hrequests : [message].flatMap ServerMessage.requests = message.asked ++ message.needed.map fun key ↦ [key] :=
      List.append_nil _
    have hannouncements : [message].flatMap ServerMessage.announcements = message.announcements := List.append_nil _
    have hheard {t'' : HandlerThread} (hsent' : Sent (message.asked ++ message.needed.map fun key ↦ [key]) t.handler t''.handler)
        (hcache : t''.cache = { t'.cache with neededStreamDefs := [] })
        (hproperties : t''.nPropertyRequestsReceived = t'.nPropertyRequestsReceived) (hfrees : t''.frees = t'.frees) :
        Heard [message] t t'' := by
      constructor
      · rwa [hrequests]
      · rw [hannouncements, hcache]
        exact hreceived.streams_eq
      · rw [hcache]
      · rw [hcache, List.countP_singleton]
        exact hreceived.received_eq
      · rw [hproperties, List.countP_singleton]
        exact hreceived.properties_eq
      · exact hfrees.trans hreceived.frees_eq
    rw [hresult, if_neg (by decide), wp_bind]
    rcases message.needed_cases with hnone | ⟨key, hkey⟩
    · rw [hnone, List.map_nil] at hneeded
      rw [wp_ok (requestNeeded_nothing now.order hneeded), wp_pure]
      refine ⟨rfl, hheard ?_ ?_ rfl rfl, hreceived.incoming_eq⟩
      · rwa [hnone, List.map_nil, List.append_nil]
      · rw [← hneeded]
    · rw [hkey, List.map_singleton] at hneeded
      have horder : now.order [nameOf key.value] = [nameOf key.value] := List.perm_singleton.mp (now.order_perm _)
      rw [requestNeeded, wp_bind, wp_get, hneeded, if_pos (List.cons_ne_nil _ _), wp_bind, wp_modify, wp_bind, horder,
        List.map_singleton, bytesOf_nameOf]
      apply wp_onHandler
      · exact hsent.idle
      · exact List.forall_mem_singleton.mpr key.length_value_lt
      · intro number h' hsent'
        rw [wp_pure, wp_pure]
        refine ⟨rfl, hheard ?_ rfl rfl rfl, hreceived.incoming_eq⟩
        rw [hkey, List.map_singleton]
        exact hsent.trans hsent'
  · exact fun _ _ ↦ id

/-- A turn that finds nothing. -/
theorem turn_noData (ht : Listening t) {now : Turn} (hstop : now.shouldStop = false) (harrived : now.arrived = 0) :
    turn now t = .ok true t := by
  have hnext : receiveNext now.arrived t = .ok .noData t := by
    have htry : onInput (tryRead now.arrived 4) t = .ok [] t := by
      rw [onInput, zoom, tryRead, if_pos harrived]
    rw [receiveNext, run_bind_of_ok htry, if_neg (not_not_intro rfl)]
    rfl
  have hprocess : processInput now.arrived t = .ok .noData t := by
    have hattempt : attempt (receiveNext now.arrived) t = .ok (.ok .noData) t := by
      rw [attempt, hnext]
    rw [processInput, run_get_bind, if_pos ht.idle.connected, run_bind_of_ok hattempt]
    rfl
  rw [turn, hstop, if_neg Bool.false_ne_true, run_bind_of_ok hprocess, if_neg (by decide),
    run_bind_of_ok (requestNeeded_nothing now.order ht.needed_eq)]
  rfl

end

/-! ## The ending -/

namespace Ending

/-- Definitions are counted in spite of the exception. -/
def cutDefinition : Ending → Bool
  | cut message _ _ => message.isDefinition
  | _ => false

/-- So are properties. -/
def cutProperty : Ending → Bool
  | cut message _ _ => message.isProperty
  | _ => false

/-- How many turns it takes: the exception in a property is dropped, and the next turn meets it again. -/
def turns (ending : Ending) : ℕ := if ending.cutProperty then 2 else 1

/-- How often the buffer is freed. -/
def frees : Ending → ℕ
  | unexpectedToken _ _ _ _ => 2
  | _ => 1

end Ending

/-- The thread has ended. -/
structure Closed (ending : Ending) (t t' : HandlerThread) : Prop where
  handler_eq : t'.handler = { t.handler with connected := false }
  cache_eq : t'.cache = { (if ending.cutDefinition then countReceived t.cache else t.cache) with
    neededStreamDefs := []
    knownStreamDefs := [] }
  properties_eq : t'.nPropertyRequestsReceived = t.nPropertyRequestsReceived + if ending.cutProperty then 1 else 0
  frees_eq : t'.frees = t.frees + ending.frees

section

variable {t : HandlerThread} {arrived : ℕ}

/-- An exception that tells of a lost connection. -/
theorem processInput_disconnected {t' : HandlerThread} (hconnected : t.handler.connected = true)
    (hnext : receiveNext arrived t = .error .disconnected t') :
    processInput arrived t = .ok .finished { t' with handler := { t'.handler with connected := false } } := by
  have hattempt : attempt (receiveNext arrived) t = .ok (.error .disconnected) t' := by
    rw [attempt, hnext]
  rw [processInput, run_get_bind, if_pos hconnected, run_bind_of_ok hattempt]
  rfl

theorem processInput_of_ok {t' : HandlerThread} {result : ProcessResult} (hconnected : t.handler.connected = true)
    (hnext : receiveNext arrived t = .ok result t') : processInput arrived t = .ok result t' := by
  have hattempt : attempt (receiveNext arrived) t = .ok (.ok result) t' := by
    rw [attempt, hnext]
  rw [processInput, run_get_bind, if_pos hconnected, run_bind_of_ok hattempt]
  rfl

/-- A message that is not a property throws where it is cut. -/
theorem receive_cut {message : ServerMessage} (hproperty : message.isProperty = false) (hends : EndsBefore t.incoming message.body) :
    receive message.code t = .error .disconnected { t with
      incoming := []
      cache := if message.isDefinition then countReceived t.cache else t.cache } := by
  cases message with
  | streamPropertyChanged key property =>
    have hread := (decodes_readUTF8 key)
    change receive_STREAM_PROPERTY_CHANGED t = _
    rw [receive_STREAM_PROPERTY_CHANGED]
    rcases endsBefore_append hends with hfirst | ⟨rest, hrest, hlast⟩
    · exact run_bind_of_error (onInput_cut hread hfirst)
    · rw [run_bind_of_ok (onInput_whole hread hrest)]
      exact run_bind_of_error (onInput_cut (decodes_readByte property) hlast)
  | streamDeleted key => exact run_bind_of_error (onInput_cut (decodes_readUTF8 key) hends)
  | streamCreated key => exact run_bind_of_error (onInput_cut (decodes_readUTF8 key) hends)
  | streamRenamed oldKey newKey =>
    have hread := decodes_readUTF8 oldKey
    change receive_STREAM_RENAMED t = _
    rw [receive_STREAM_RENAMED]
    rcases endsBefore_append hends with hfirst | ⟨rest, hrest, hlast⟩
    · exact run_bind_of_error (onInput_cut hread hfirst)
    · rw [run_bind_of_ok (onInput_whole hread hrest)]
      exact run_bind_of_error (onInput_cut (decodes_readUTF8 newKey) hlast)
  | streamsDefinition requestId definitions =>
    have hread : onInput readStreams t = .error .disconnected { t with incoming := [] } := by
      rw [onInput, zoom, readStreams_cut requestId definitions hends]
      rfl
    apply run_bind_of_error
    rw [onException, hread]
    rfl
  | streamProperty requestId key value => cases hproperty
  | streamsChanged => exact absurd hends not_endsBefore_nil

/-- A property that is cut is counted, and nothing is left to read. -/
theorem receive_cutProperty {requestId : UInt64} {key : Utf8Text} {value : PropertyValue}
    (hends : EndsBefore t.incoming (ServerMessage.streamProperty requestId key value).body) :
    receive 16 t = .ok .ok { t with incoming := [], nPropertyRequestsReceived := t.nPropertyRequestsReceived + 1 } := by
  have hattempt : attempt (onInput readProperty) t = .ok (.error .disconnected) { t with incoming := [] } := by
    rw [attempt, onInput_cut (decodes_readProperty requestId key value) hends]
  change receive_STREAM_PROPERTY t = _
  rw [receive_STREAM_PROPERTY, run_bind_of_ok hattempt]
  rfl

theorem receive_unexpected {token : ℕ} (hunknown : token ≠ 17 ∧ token ∉ messageCodes) :
    receive token t = (do cleanup; return .finished : ThreadM ProcessResult) t := by
  obtain ⟨hclosed, hcodes⟩ := hunknown
  simp only [messageCodes, List.mem_cons, List.not_mem_nil, or_false, not_or] at hcodes
  rw [receive]
  all_goals omega

/-- The loop ends with a turn that is the last one. -/
theorem threadProcImpl_of_last {now : Turn} {turns : List Turn} {t' : HandlerThread} (h : turn now t = .ok false t') :
    threadProcImpl (now :: turns) t = .ok true (finalState close t') := by
  rw [threadProcImpl, run_bind_of_ok h]
  rfl

theorem turn_finished {now : Turn} {t' : HandlerThread} (hstop : now.shouldStop = false)
    (h : processInput now.arrived t = .ok .finished t') : turn now t = .ok false t' := by
  rw [turn, hstop, if_neg Bool.false_ne_true, run_bind_of_ok h]
  rfl

/-- The last turn, with what `close` does behind it. -/
theorem turn_ending (ht : Listening t) {now : Turn} (hstop : now.shouldStop = false) (harrived : now.arrived ≠ 0)
    {ending : Ending} (hincoming : t.incoming = ending.encode) (hproperty : ending.cutProperty = false) :
    ∃ t', turn now t = .ok false t' ∧ Closed ending t (finalState close t') := by
  have hconnected := ht.idle.connected
  cases ending with
  | disconnected part h =>
    have hshort : t.incoming.length < 4 := by
      rw [hincoming]
      exact h
    have hnext := receiveNext_short harrived hshort
    exact ⟨_, turn_finished hstop (processInput_disconnected hconnected hnext), rfl, rfl, rfl, rfl⟩
  | cut message part h =>
    have hread : EndsBefore { t with incoming := part }.incoming message.body := h
    have hnext := receiveNext_of_code harrived message.code_lt hincoming
    rw [receive_cut hproperty hread] at hnext
    refine ⟨_, turn_finished hstop (processInput_disconnected hconnected hnext), rfl, rfl, ?_, rfl⟩
    rw [hproperty]
    rfl
  | sessionClosed rest =>
    have hnext := receiveNext_of_code harrived (by decide) hincoming
    exact ⟨_, turn_finished hstop (processInput_of_ok hconnected hnext), rfl, rfl, rfl, rfl⟩
  | unexpectedToken token h hunknown rest =>
    have hnext := receiveNext_of_code harrived h hincoming
    rw [receive_unexpected hunknown] at hnext
    exact ⟨_, turn_finished hstop (processInput_of_ok hconnected hnext), rfl, rfl, rfl, rfl⟩

theorem turn_cutProperty (ht : Listening t) {now : Turn} (hstop : now.shouldStop = false) (harrived : now.arrived ≠ 0)
    {requestId : UInt64} {key : Utf8Text} {value : PropertyValue} {part : List UInt8}
    (h : EndsBefore part (ServerMessage.streamProperty requestId key value).body)
    (hincoming : t.incoming = bigEndian 4 16 ++ part) :
    turn now t = .ok true { t with incoming := [], nPropertyRequestsReceived := t.nPropertyRequestsReceived + 1 } := by
  have hnext := receiveNext_of_code harrived (by decide) hincoming
  have hread : EndsBefore { t with incoming := part }.incoming (ServerMessage.streamProperty requestId key value).body := h
  rw [receive_cutProperty hread] at hnext
  have hprocess := processInput_of_ok ht.idle.connected hnext
  rw [turn, hstop, if_neg Bool.false_ne_true, run_bind_of_ok hprocess, if_neg (by decide)]
  exact run_bind_of_ok (requestNeeded_nothing now.order ht.needed_eq)

end

/-! ## Runs -/

section

variable {t t' t'' : HandlerThread} {messages more : List ServerMessage}

theorem Heard.refl (ht : Listening t) : Heard [] t t :=
  ⟨.refl ht.idle, rfl, ht.needed_eq, rfl, rfl, rfl⟩

theorem Heard.trans (hfirst : Heard messages t t') (hsecond : Heard more t' t'') : Heard (messages ++ more) t t'' where
  sent := by
    rw [List.flatMap_append]
    exact hfirst.sent.trans hsecond.sent
  streams_eq := by
    rw [List.flatMap_append, List.foldl_append, ← hfirst.streams_eq]
    exact hsecond.streams_eq
  needed_eq := hsecond.needed_eq
  received_eq := by
    rw [List.countP_append, ← Nat.add_assoc, ← hfirst.received_eq]
    exact hsecond.received_eq
  properties_eq := by
    rw [List.countP_append, ← Nat.add_assoc, ← hfirst.properties_eq]
    exact hsecond.properties_eq
  frees_eq := hsecond.frees_eq.trans hfirst.frees_eq

theorem Heard.listening (h : Heard messages t t') : Listening t' := ⟨h.sent.idle, h.needed_eq⟩

/-- The turns that find something. -/
def busy (turns : List Turn) : ℕ := turns.countP fun now ↦ now.arrived ≠ 0

variable {ending : Ending} {turns : List Turn}

/-- As long as there are messages, each turn that finds something handles the next one. -/
theorem threadProcImpl_running (ht : Listening t) (hincoming : t.incoming = messages.flatMap ServerMessage.encode ++ ending.encode)
    (hreadable : ∀ message ∈ messages, message.Readable) (hstop : ∀ now ∈ turns, now.shouldStop = false)
    (hbusy : busy turns ≤ messages.length) :
    wp (threadProcImpl turns) (fun ended t' ↦ ended = false ∧ Heard (messages.take (busy turns)) t t' ∧
      t'.incoming = (messages.drop (busy turns)).flatMap ServerMessage.encode ++ ending.encode) (fun _ _ ↦ False) t := by
  induction turns generalizing t messages with
  | nil => exact ⟨rfl, .refl ht, hincoming⟩
  | cons now turns ih =>
    rw [List.forall_mem_cons] at hstop
    by_cases harrived : now.arrived = 0
    · have hsame : busy (now :: turns) = busy turns := List.countP_cons_of_neg (by simpa using harrived)
      rw [hsame] at hbusy ⊢
      rw [threadProcImpl, wp_bind, wp_ok (turn_noData ht hstop.1 harrived), if_pos rfl]
      exact ih ht hincoming hreadable hstop.2 hbusy
    · have hmore : busy (now :: turns) = busy turns + 1 := List.countP_cons_of_pos (by simpa using harrived)
      rw [hmore] at hbusy ⊢
      cases messages with
      | nil => exact absurd hbusy (Nat.not_succ_le_zero _)
      | cons message messages =>
        rw [List.forall_mem_cons] at hreadable
        rw [List.flatMap_cons, List.append_assoc] at hincoming
        apply wp_call (turn_message ht hstop.1 harrived hreadable.1 hincoming)
        · rintro again t₁ ⟨hagain, hheard, hrest⟩
          rw [hagain, if_pos rfl]
          apply wp_mono (ih hheard.listening hrest hreadable.2 hstop.2 (Nat.le_of_succ_le_succ hbusy))
          · rintro ended t₂ ⟨hended, hheard', hrest'⟩
            exact ⟨hended, hheard.trans hheard', hrest'⟩
          · exact fun _ _ ↦ id
        · exact fun _ _ ↦ id

/-- Nothing but the ending is left to read. -/
theorem threadProcImpl_ending (ht : Listening t) (hincoming : t.incoming = ending.encode)
    (hstop : ∀ now ∈ turns, now.shouldStop = false) (hbusy : ending.turns ≤ busy turns) :
    wp (threadProcImpl turns) (fun ended t' ↦ ended = true ∧ Closed ending t t') (fun _ _ ↦ False) t := by
  induction turns generalizing t ending with
  | nil =>
    have hnone : ending.turns ≤ 0 := hbusy
    rw [Ending.turns] at hnone
    split at hnone <;> omega
  | cons now turns ih =>
    rw [List.forall_mem_cons] at hstop
    by_cases harrived : now.arrived = 0
    · have hsame : busy (now :: turns) = busy turns := List.countP_cons_of_neg (by simpa using harrived)
      rw [threadProcImpl, wp_bind, wp_ok (turn_noData ht hstop.1 harrived), if_pos rfl]
      exact ih ht hincoming hstop.2 (hsame ▸ hbusy)
    · have hmore : busy (now :: turns) = busy turns + 1 := List.countP_cons_of_pos (by simpa using harrived)
      cases hproperty : ending.cutProperty with
      | false =>
        obtain ⟨t₁, hlast, hclosed⟩ := turn_ending ht hstop.1 harrived hincoming hproperty
        rw [wp_ok (threadProcImpl_of_last hlast)]
        exact ⟨rfl, hclosed⟩
      | true =>
        rw [Ending.turns, hproperty, if_pos rfl, hmore] at hbusy
        cases ending with
        | cut message part h =>
          cases message with
          | streamProperty requestId key value =>
            have hnext : (Ending.disconnected [] (by decide)).turns ≤ busy turns := Nat.le_of_succ_le_succ hbusy
            have hempty := @ih { t with incoming := [], nPropertyRequestsReceived := t.nPropertyRequestsReceived + 1 }
              (.disconnected [] (by decide)) ⟨ht.idle, ht.needed_eq⟩ rfl hstop.2 hnext
            rw [threadProcImpl, wp_bind, wp_ok (turn_cutProperty ht hstop.1 harrived h hincoming), if_pos rfl]
            apply wp_mono hempty
            · rintro ended t' ⟨hended, hclosed⟩
              exact ⟨hended, hclosed.handler_eq, hclosed.cache_eq, hclosed.properties_eq, hclosed.frees_eq⟩
            · exact fun _ _ ↦ id
          | _ => cases hproperty
        | _ => cases hproperty

theorem threadProcImpl_closed (ht : Listening t) (hincoming : t.incoming = messages.flatMap ServerMessage.encode ++ ending.encode)
    (hreadable : ∀ message ∈ messages, message.Readable) (hstop : ∀ now ∈ turns, now.shouldStop = false)
    (hbusy : messages.length + ending.turns ≤ busy turns) :
    wp (threadProcImpl turns) (fun ended t' ↦ ended = true ∧ ∃ last, Heard messages t last ∧ Closed ending last t')
      (fun _ _ ↦ False) t := by
  induction turns generalizing t messages with
  | nil =>
    have hnone : messages.length + ending.turns ≤ 0 := hbusy
    rw [Ending.turns] at hnone
    split at hnone <;> omega
  | cons now turns ih =>
    cases messages with
    | nil =>
      rw [List.length_nil, Nat.zero_add] at hbusy
      apply wp_mono (threadProcImpl_ending ht hincoming hstop hbusy)
      · exact fun ended t' ⟨hended, hclosed⟩ ↦ ⟨hended, t, .refl ht, hclosed⟩
      · exact fun _ _ ↦ id
    | cons message messages =>
      rw [List.forall_mem_cons] at hstop
      by_cases harrived : now.arrived = 0
      · have hsame : busy (now :: turns) = busy turns := List.countP_cons_of_neg (by simpa using harrived)
        rw [threadProcImpl, wp_bind, wp_ok (turn_noData ht hstop.1 harrived), if_pos rfl]
        exact ih ht hincoming hreadable hstop.2 (hsame ▸ hbusy)
      · have hmore : busy (now :: turns) = busy turns + 1 := List.countP_cons_of_pos (by simpa using harrived)
        rw [List.forall_mem_cons] at hreadable
        rw [List.flatMap_cons, List.append_assoc] at hincoming
        rw [List.length_cons, hmore] at hbusy
        apply wp_call (turn_message ht hstop.1 harrived hreadable.1 hincoming)
        · rintro again t₁ ⟨hagain, hheard, hrest⟩
          rw [hagain, if_pos rfl]
          apply wp_mono (ih hheard.listening hrest hreadable.2 hstop.2 (by omega))
          · rintro ended t₂ ⟨hended, last, hheard', hclosed⟩
            exact ⟨hended, last, hheard.trans hheard', hclosed⟩
          · exact fun _ _ ↦ id
        · exact fun _ _ ↦ id

theorem threadProcImpl_append (turns later : List Turn) :
    threadProcImpl (turns ++ later) =
      threadProcImpl turns >>= fun ended ↦ if ended then pure true else threadProcImpl later := by
  induction turns with
  | nil => rfl
  | cons now turns ih =>
    funext t
    rw [List.cons_append, threadProcImpl, threadProcImpl, ih, bind_assoc]
    cases hturn : turn now t with
    | error error t' => rw [run_bind_of_error hturn, run_bind_of_error hturn]
    | ok again t' =>
      rw [run_bind_of_ok hturn, run_bind_of_ok hturn]
      cases again <;> rfl

/-- The thread is told to stop before it has read the ending. -/
theorem threadProcImpl_stopped (ht : Listening t) (hincoming : t.incoming = messages.flatMap ServerMessage.encode ++ ending.encode)
    (hreadable : ∀ message ∈ messages, message.Readable) (hstop : ∀ now ∈ turns, now.shouldStop = false)
    (hbusy : busy turns ≤ messages.length) {now : Turn} (hnow : now.shouldStop = true) (later : List Turn) :
    wp (threadProcImpl (turns ++ now :: later)) (fun ended t' ↦ ended = true ∧
      ∃ last, Heard (messages.take (busy turns)) t last ∧ t' = finalState close last) (fun _ _ ↦ False) t := by
  rw [threadProcImpl_append]
  apply wp_call (threadProcImpl_running ht hincoming hreadable hstop hbusy)
  · rintro ended last ⟨hended, hheard, _⟩
    have hturn : turn now last = .ok false last := by
      rw [turn, hnow, if_pos rfl]
      rfl
    rw [hended, if_neg Bool.false_ne_true, wp_ok (threadProcImpl_of_last hturn)]
    exact ⟨rfl, last, hheard, rfl⟩
  · exact fun _ _ ↦ id

/-- Whatever the server sends is messages and an ending, and however it arrives, the thread hears it message by message. -/
theorem server_heard (ht : Listening t) :
    (∃ (messages : List ServerMessage) (ending : Ending), t.incoming = messages.flatMap ServerMessage.encode ++ ending.encode) ∧
      ∀ (messages : List ServerMessage) (ending : Ending),
        t.incoming = messages.flatMap ServerMessage.encode ++ ending.encode → (∀ message ∈ messages, message.Readable) →
        ∀ turns : List Turn, (∀ now ∈ turns, now.shouldStop = false) →
          (busy turns ≤ messages.length →
            wp (threadProcImpl turns) (fun ended t' ↦ ended = false ∧ Heard (messages.take (busy turns)) t t' ∧
              t'.incoming = (messages.drop (busy turns)).flatMap ServerMessage.encode ++ ending.encode) (fun _ _ ↦ False) t ∧
            ∀ now : Turn, now.shouldStop = true → ∀ later : List Turn,
              wp (threadProcImpl (turns ++ now :: later)) (fun ended t' ↦ ended = true ∧
                ∃ last, Heard (messages.take (busy turns)) t last ∧ t' = finalState close last) (fun _ _ ↦ False) t) ∧
          (messages.length + ending.turns ≤ busy turns →
            wp (threadProcImpl turns) (fun ended t' ↦ ended = true ∧ ∃ last, Heard messages t last ∧ Closed ending last t')
              (fun _ _ ↦ False) t) := by
  refine ⟨exists_messages t.incoming, ?_⟩
  intro messages ending hincoming hreadable turns hstop
  constructor
  · intro hbusy
    constructor
    · exact threadProcImpl_running ht hincoming hreadable hstop hbusy
    · exact fun now hnow later ↦ threadProcImpl_stopped ht hincoming hreadable hstop hbusy hnow later
  · exact threadProcImpl_closed ht hincoming hreadable hstop

end

/-- A stream is created, and a token follows that is not known. -/
def unknownAfterCreated : HandlerThread where
  handler := connectedSession 0x11000
  incoming := [0, 0, 0, 13, 0, 1, 0x61, 0, 0, 0, 7]
  cache := .empty
  nPropertyRequestsReceived := 0
  frees := 0

/-- A byte arrives, and another time some more. -/
def smallPortions : List Turn := [1, 0, 3].map fun arrived ↦ ⟨false, arrived, id, fun _ ↦ .refl _⟩

def createdStream : ServerMessage := .streamCreated ⟨some [0x61], by decide⟩

def unknownToken : Ending := .unexpectedToken 7 (by decide) (by decide) []

theorem server_heard_unknown :
    ∃ last t', Heard [createdStream] unknownAfterCreated last ∧ Closed unknownToken last t' ∧
      threadProcImpl smallPortions unknownAfterCreated = .ok true t' := by
  have ht : Listening unknownAfterCreated := ⟨connectedSession_idle 0x11000, rfl⟩
  have hincoming : unknownAfterCreated.incoming = [createdStream].flatMap ServerMessage.encode ++ unknownToken.encode := by decide
  have hreadable : ∀ message ∈ [createdStream], message.Readable := List.forall_mem_singleton.mpr trivial
  have hstop : ∀ now ∈ smallPortions, now.shouldStop = false := by decide
  have hbusy : [createdStream].length + unknownToken.turns ≤ busy smallPortions := by decide
  generalize unknownAfterCreated = t, smallPortions = turns at ht hincoming hstop hbusy ⊢
  have hheard := ((server_heard ht).2 [createdStream] unknownToken hincoming hreadable turns hstop).2 hbusy
  obtain ⟨ended, t', hrun, rfl, last, hlast, hclosed⟩ := exists_ok_of_wp hheard
  exact ⟨last, t', hlast, hclosed, hrun⟩

end DxApi.Session.HandlerThread
