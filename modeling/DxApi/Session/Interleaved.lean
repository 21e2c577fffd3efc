import DxApi.Platform.CriticalSection
import DxApi.Session.Requests

/-!
# Requests of several threads

The threads that use a database and the session thread write their requests into one buffer and to one
connection. Each request is assembled and flushed inside `writerSection_`, so whatever the interleaving
the connection carries whole requests, and at each moment a prefix of them.
-/

namespace DxApi.Session

open Exec Serialized Platform Net

/-! ## The requests as code -/

/-- What a request returns, or what it throws out of the section. -/
abbrev RequestCode := Code SessionHandler (Except SessionError ℕ)

def flushCode (next : RequestCode) : RequestCode :=
  .atomic get fun h ↦
    if h.writer.dataPtr ≠ h.writer.bufferStart then
      .atomic sendBuffer fun _ ↦ .atomic resetPointer fun _ ↦ next
    else next

def makeRoomCode (key : List UInt8) (next : RequestCode) : RequestCode :=
  .atomic get fun h ↦ if remaining h.writer ≤ key.length + 4 then flushCode next else next

def writeKeysCode (keys : List (List UInt8)) (next : RequestCode) : RequestCode :=
  match keys with
  | [] => next
  | key :: keys => makeRoomCode key (.atomic (onWriter (Writer.writeUTF8 key)) fun _ ↦ writeKeysCode keys next)

/-- The number is read again when the request returns. -/
def requestGetStreamsCode (keys : List (List UInt8)) : RequestCode :=
  .atomic (onWriter (Writer.writeUInt32 reqGetStreams)) fun _ ↦
  .atomic (modify fun h ↦ { h with nStreamDefRequestsSent := h.nStreamDefRequestsSent + 1 }) fun _ ↦
  .atomic get fun h ↦
  .atomic (onWriter (Writer.writeUInt64 h.nStreamDefRequestsSent)) fun _ ↦
  .atomic (onWriter (Writer.writeUInt32 keys.length)) fun _ ↦
  writeKeysCode keys <|
  flushCode <|
  .atomic get fun h ↦ .done (.ok h.nStreamDefRequestsSent)

def requestGetPropertyCode (key : List UInt8) (id : ℤ) : RequestCode :=
  .atomic (onWriter (Writer.writeUInt32 reqGetStreamProperty)) fun _ ↦
  .atomic (modify fun h ↦ { h with nPropertyRequestsSent := h.nPropertyRequestsSent + 1 }) fun _ ↦
  .atomic get fun h ↦
  .atomic (onWriter (Writer.writeUInt64 h.nPropertyRequestsSent)) fun _ ↦
  .atomic (onWriter (Writer.writeUTF8 key)) fun _ ↦
  .atomic (onWriter (Writer.writeByte id)) fun _ ↦
  flushCode <|
  .atomic get fun h ↦ .done (.ok h.nPropertyRequestsSent)

def SessionRequest.code : SessionRequest → RequestCode
  | .getStreams keys => requestGetStreamsCode keys
  | .getProperty key id => requestGetPropertyCode key id

/-! ## Without an interruption the code is the request -/

section

variable {next : RequestCode} {rest : SessionM ℕ}

theorem runs_flushCode (h : next.Runs rest) : (flushCode next).Runs (do flushOutput; rest) := by
  rw [flushOutput, bind_assoc]
  apply Code.runs_atomic
  intro found
  by_cases hdata : found.writer.dataPtr ≠ found.writer.bufferStart
  · rw [if_pos hdata, if_pos hdata, bind_assoc]
    exact Code.runs_atomic fun _ ↦ Code.runs_atomic fun _ ↦ h
  · rw [if_neg hdata, if_neg hdata]
    exact h

theorem runs_makeRoomCode (h : next.Runs rest) (key : List UInt8) :
    (makeRoomCode key next).Runs (do makeRoom key; rest) := by
  rw [makeRoom, bind_assoc]
  apply Code.runs_atomic
  intro found
  by_cases hroom : remaining found.writer ≤ key.length + 4
  · rw [if_pos hroom, if_pos hroom]
    exact runs_flushCode h
  · rw [if_neg hroom, if_neg hroom]
    exact h

theorem runs_writeKeysCode (h : next.Runs rest) (keys : List (List UInt8)) :
    (writeKeysCode keys next).Runs (do writeKeys keys; rest) := by
  induction keys with
  | nil => exact h
  | cons key keys ih =>
    rw [writeKeys, bind_assoc]
    apply runs_makeRoomCode
    rw [bind_assoc]
    exact Code.runs_atomic fun _ ↦ ih

theorem runs_requestGetStreamsCode (keys : List (List UInt8)) :
    (requestGetStreamsCode keys).Runs
      (do let _ ← requestGetStreams keys; let h ← get; return h.nStreamDefRequestsSent) := by
  simp only [requestGetStreams, bind_assoc, pure_bind]
  apply Code.runs_atomic
  intro _
  apply Code.runs_atomic
  intro _
  apply Code.runs_atomic
  intro h
  apply Code.runs_atomic
  intro _
  apply Code.runs_atomic
  intro _
  apply runs_writeKeysCode
  apply runs_flushCode
  exact Code.runs_atomic fun h ↦ Code.runs_done h.nStreamDefRequestsSent

theorem runs_requestGetPropertyCode (key : List UInt8) (id : ℤ) :
    (requestGetPropertyCode key id).Runs
      (do let _ ← requestGetProperty key id; let h ← get; return h.nPropertyRequestsSent) := by
  simp only [requestGetProperty, bind_assoc, pure_bind]
  apply Code.runs_atomic
  intro _
  apply Code.runs_atomic
  intro _
  apply Code.runs_atomic
  intro h
  apply Code.runs_atomic
  intro _
  apply Code.runs_atomic
  intro _
  apply Code.runs_atomic
  intro _
  apply runs_flushCode
  exact Code.runs_atomic fun h ↦ Code.runs_done h.nPropertyRequestsSent

end

/-! ## What one request does -/

/-- A request whose keys fit. -/
abbrev FittingRequest := { request : SessionRequest // request.Fits }

/-- The code of a request that fits writes its record, and returns the number in it. -/
theorem run_code {h : SessionHandler} (hs : Idle h) {request : SessionRequest} (hfits : request.Fits)
    (rest : List SessionRequest) :
    ∃ h' record, request.code.run h = (.ok record.id, h') ∧ Idle h' ∧
      h'.ioStream.handed = h.ioStream.handed ++ record.encode ∧
      numbered h.nStreamDefRequestsSent h.nPropertyRequestsSent (request :: rest) =
        record :: numbered h'.nStreamDefRequestsSent h'.nPropertyRequestsSent rest := by
  cases request with
  | getStreams keys =>
    have hend := hs.end_eq
    have hptr := hs.dataPtr_eq
    rw [basicWriterBufferSize] at hend
    obtain ⟨value, h', hrun, hput, hidle⟩ :=
      exists_ok_of_wp (requestGetStreams_put hs.toSendable (by omega) hfits.2)
    have hhanded := handed_of_put (hs.count (h.nStreamDefRequestsSent + 1) h.nPropertyRequestsSent) hidle hput
    refine ⟨h', _, ?_, hidle, hhanded, ?_⟩
    · rw [SessionRequest.code, runs_requestGetStreamsCode, Code.outcome, run_bind_of_ok hrun, run_get_bind,
        run_pure, hput.streams_eq]
    · rw [numbered, hput.streams_eq, hput.properties_eq]
  | getProperty key id =>
    obtain ⟨value, h', hrun, hput, hidle⟩ := exists_ok_of_wp (requestGetProperty_put hs hfits id)
    have hhanded := handed_of_put (hs.count h.nStreamDefRequestsSent (h.nPropertyRequestsSent + 1)) hidle hput
    refine ⟨h', _, ?_, hidle, hhanded, ?_⟩
    · rw [SessionRequest.code, runs_requestGetPropertyCode, Code.outcome, run_bind_of_ok hrun, run_get_bind,
        run_pure, hput.properties_eq]
    · rw [numbered, hput.streams_eq, hput.properties_eq]

def body (request : FittingRequest) : RequestCode := request.1.code

/-- Requests one after the other: what is on the connection, and what each returned. -/
theorem dataAfter_body {h : SessionHandler} (hs : Idle h) (requests : List FittingRequest) :
    Idle (dataAfter body h requests) ∧
      (dataAfter body h requests).ioStream.handed = h.ioStream.handed ++
        (numbered h.nStreamDefRequestsSent h.nPropertyRequestsSent (requests.map Subtype.val)).flatMap
          RequestRecord.encode ∧
      resultsOf body h requests =
        (numbered h.nStreamDefRequestsSent h.nPropertyRequestsSent (requests.map Subtype.val)).map
          fun record ↦ .ok record.id := by
  induction requests generalizing h with
  | nil => exact ⟨hs, (List.append_nil _).symm, rfl⟩
  | cons request requests ih =>
    obtain ⟨h', record, hrun, hidle, hhanded, hnumbered⟩ := run_code hs request.2 (requests.map Subtype.val)
    obtain ⟨hidle', hhanded', hresults⟩ := ih hidle
    have hdata : dataAfter body h (request :: requests) = dataAfter body h' requests := by
      rw [dataAfter, List.foldl_cons, body, hrun]
      rfl
    rw [hdata, List.map_cons, hnumbered]
    refine ⟨hidle', ?_, ?_⟩
    · rw [hhanded', hhanded, List.flatMap_cons, List.append_assoc]
    · rw [resultsOf, body, hrun, hresults, List.map_cons]

/-! ## Nothing that was handed over is taken back -/

/-- The connection carries more, or the same. -/
def Extends (h h' : SessionHandler) : Prop := h.ioStream.handed <+: h'.ioStream.handed

instance : Std.Refl Extends := ⟨fun _ ↦ List.prefix_rfl⟩

instance : IsTrans SessionHandler Extends := ⟨fun _ _ _ ↦ List.IsPrefix.trans⟩

theorem write_extends (data sent : List UInt8) :
    Preserves (fun s : IOStreamTCP ↦ sent <+: s.handed) (IOStreamTCP.write data) := by
  intro s hs
  apply wp_mono (IOStreamTCP.write_spec data s)
  · intro result s' hwritten
    rw [IOStreamTCP.handed_of_written hwritten]
    exact hs.trans (List.prefix_append _ _)
  · intro _ s' ⟨hwrites, _⟩
    rw [IOStreamTCP.handed_congr hwrites]
    exact hs

/-- What keeps every prefix of the output extends the output. -/
theorem extends_of_preserves {α : Type} {program : SessionM α}
    (h : ∀ sent, Preserves (StreamKept fun s ↦ sent <+: s.handed) program) (s : SessionHandler) :
    Extends s (finalState program s) := (h s.ioStream.handed).finalState List.prefix_rfl

theorem onWriter_extends {α : Type} (program : Writer.WriterM α) (s : SessionHandler) :
    Extends s (finalState (onWriter program) s) := extends_of_preserves (fun _ ↦ onWriter_kept program) s

theorem sendBuffer_extends (s : SessionHandler) : Extends s (finalState sendBuffer s) := by
  apply extends_of_preserves
  intro sent
  apply preserves_get.bind
  intro h
  apply Preserves.ite
  · apply Preserves.bind
    · exact (write_extends _ sent).zoom (fun _ hkept ↦ hkept) fun _ _ _ hkept ↦ hkept
    · exact fun _ ↦ preserves_pure _
  · exact preserves_pure _

/-- A step that leaves the connection alone. -/
theorem follows_silent {α : Type} {program : SessionM α} {next : α → RequestCode}
    (hsilent : ∀ s, (finalState program s).ioStream = s.ioStream) (hnext : ∀ value, (next value).Follows Extends) :
    (Code.atomic program next).Follows Extends := by
  apply Code.follows_atomic _ hnext
  intro s
  have hsame : s.ioStream.handed = (finalState program s).ioStream.handed := by rw [hsilent s]
  exact ⟨[], (List.append_nil _).trans hsame⟩

section

variable {next : RequestCode}

theorem follows_flushCode (h : next.Follows Extends) : (flushCode next).Follows Extends := by
  apply follows_silent fun _ ↦ rfl
  intro found
  split
  · apply Code.follows_atomic sendBuffer_extends
    intro _
    exact follows_silent (fun _ ↦ rfl) fun _ ↦ h
  · exact h

theorem follows_writeKeysCode (h : next.Follows Extends) (keys : List (List UInt8)) :
    (writeKeysCode keys next).Follows Extends := by
  induction keys with
  | nil => exact h
  | cons key keys ih =>
    have hkey := Code.follows_atomic (onWriter_extends (Writer.writeUTF8 key)) fun _ ↦ ih
    apply follows_silent fun _ ↦ rfl
    intro found
    split
    · exact follows_flushCode hkey
    · exact hkey

end

theorem follows_code (request : SessionRequest) : request.code.Follows Extends := by
  have hread {read : SessionHandler → ℕ} :
      Code.Follows Extends (.atomic get fun h ↦ .done (.ok (read h)) : RequestCode) :=
    follows_silent (fun _ ↦ rfl) fun _ ↦ trivial
  cases request with
  | getStreams keys =>
    apply Code.follows_atomic (onWriter_extends _)
    intro _
    apply follows_silent fun _ ↦ rfl
    intro _
    apply follows_silent fun _ ↦ rfl
    intro h
    apply Code.follows_atomic (onWriter_extends _)
    intro _
    apply Code.follows_atomic (onWriter_extends _)
    intro _
    exact follows_writeKeysCode (follows_flushCode hread) keys
  | getProperty key id =>
    apply Code.follows_atomic (onWriter_extends _)
    intro _
    apply follows_silent fun _ ↦ rfl
    intro _
    apply follows_silent fun _ ↦ rfl
    intro h
    apply Code.follows_atomic (onWriter_extends _)
    intro _
    apply Code.follows_atomic (onWriter_extends _)
    intro _
    apply Code.follows_atomic (onWriter_extends _)
    intro _
    exact follows_flushCode hread

/-! ## Runs -/

section

variable {τ : Type} [DecidableEq τ] {h : SessionHandler}

/-- Any number of threads that send requests over one session. -/
def runThreads (h : SessionHandler) (moves : List (Move τ FittingRequest)) :
    Threads CriticalSection τ FittingRequest SessionHandler (Except SessionError ℕ) :=
  (Threads.initial .constructed h).runFrom CriticalSection.lock body moves

/-- The requests, numbered behind those that were sent before. -/
def recordsOf (h : SessionHandler) (requests : List FittingRequest) : List RequestRecord :=
  numbered h.nStreamDefRequestsSent h.nPropertyRequestsSent (requests.map Subtype.val)

theorem sound_runThreads (h : SessionHandler) (moves : List (Move τ FittingRequest)) :
    Threads.Sound CriticalSection.lock body h (runThreads h moves) :=
  (Threads.sound_initial CriticalSection.free_constructed).runFrom moves

theorem following_runThreads (h : SessionHandler) (moves : List (Move τ FittingRequest)) :
    (runThreads h moves).Following Extends :=
  have hbody (request : FittingRequest) : (body request).Follows Extends := follows_code request.1
  Threads.following_runFrom hbody Threads.following_initial moves

/-- Whatever the interleaving of any number of threads, each request that has returned returned the number
it was given, the numbers of each kind go up by one in the order in which the requests left the section,
the connection carries these requests whole when the section is free, and at each moment a prefix of them and of
the one request that is being sent. -/
theorem requests_interleaved (hs : Idle h) (moves : List (Move τ FittingRequest)) :
    (runThreads h moves).returned.map Returned.result =
        (recordsOf h (runThreads h moves).calls).map (fun record ↦ .ok record.id) ∧
      (∀ kind, Consecutive (((recordsOf h (runThreads h moves).calls).filter fun record ↦
        record.request.isGetStreams = kind).map RequestRecord.id)) ∧
      (CriticalSection.lock.free (runThreads h moves).lock → Idle (runThreads h moves).data ∧
        (runThreads h moves).data.ioStream.handed =
          h.ioStream.handed ++ (recordsOf h (runThreads h moves).calls).flatMap RequestRecord.encode) ∧
      ∃ sending : List FittingRequest, sending.length ≤ 1 ∧
        (∀ request ∈ sending, ∃ thread code, (runThreads h moves).place thread = .inside request code) ∧
        (runThreads h moves).data.ioStream.handed <+: h.ioStream.handed ++
          (recordsOf h ((runThreads h moves).calls ++ sending)).flatMap RequestRecord.encode := by
  have hsound := sound_runThreads h moves
  refine ⟨?_, fun kind ↦ ?_, fun hfree ↦ ?_, ?_⟩
  · exact hsound.results.trans (dataAfter_body hs _).2.2
  · obtain ⟨count, hcount⟩ := numbered_ids kind h.nStreamDefRequestsSent h.nPropertyRequestsSent
      ((runThreads h moves).calls.map Subtype.val)
    rw [recordsOf, hcount]
    exact consecutive_range' _ _
  · rw [hsound.serialized.2 hfree]
    obtain ⟨hidle, hhanded, -⟩ := dataAfter_body hs (runThreads h moves).calls
    exact ⟨hidle, hhanded⟩
  · obtain ⟨sending, hlength, hinside, hextends⟩ := hsound.leads (following_runThreads h moves)
    refine ⟨sending, hlength, hinside, ?_⟩
    rw [recordsOf, ← (dataAfter_body hs _).2.1]
    exact hextends

/-- Two threads on one session: the second one finds the section taken, and enters it later. -/
theorem requests_interleaved_connected :
    let streams : FittingRequest := ⟨.getStreams [], by decide, List.forall_mem_nil _⟩
    let property : FittingRequest := ⟨.getProperty [0x61] 1, (by decide : 1 < 0xFFFF)⟩
    let moves : List (Move Bool FittingRequest) :=
      [.call true streams, .call false property, .tryEnter true, .tryEnter false, .work true, .tryEnter false]
    let threads := runThreads (connectedSession 0x11000) moves
    threads.returned.map Returned.result =
        (recordsOf (connectedSession 0x11000) threads.calls).map (fun record ↦ .ok record.id) ∧
      (∀ kind, Consecutive (((recordsOf (connectedSession 0x11000) threads.calls).filter fun record ↦
        record.request.isGetStreams = kind).map RequestRecord.id)) ∧
      (CriticalSection.lock.free threads.lock → Idle threads.data ∧
        threads.data.ioStream.handed = (connectedSession 0x11000).ioStream.handed ++
          (recordsOf (connectedSession 0x11000) threads.calls).flatMap RequestRecord.encode) ∧
      ∃ sending : List FittingRequest, sending.length ≤ 1 ∧
        (∀ request ∈ sending, ∃ thread code, threads.place thread = .inside request code) ∧
        threads.data.ioStream.handed <+: (connectedSession 0x11000).ioStream.handed ++
          (recordsOf (connectedSession 0x11000) (threads.calls ++ sending)).flatMap RequestRecord.encode :=
  requests_interleaved (connectedSession_idle 0x11000) _

end

end DxApi.Session
