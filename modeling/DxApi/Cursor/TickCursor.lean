import DxApi.Cursor.SymbolTranslator
import DxApi.Lib.CopyOnWrite
import DxApi.Lib.Exec
import Mathlib.Tactic.Ring

/-!
# The cursor

`TickCursorImpl` filters the messages that the server sends. A client changes the subscription from
any thread, under the lock of the cursor: it writes the filters of the shadow state, sends a request
and notes the command that the server has started. The thread that reads takes the shadow state over
at the next message or record, and sees each command acknowledged. What holds the lock is one step.
-/

namespace DxApi.Cursor

open Exec

/-! ## Data -/

/-- `SubscrChangeAction`. -/
inductive SubscrChangeAction
  | set
  | add
  | remove
  deriving DecidableEq, Repr

/-- `CursorState`; `ended` is `END`. -/
inductive CursorState
  | started
  | reading
  | ended
  deriving DecidableEq, Repr

/-- A stream, as the cursor holds it: where the object is, and its key. -/
structure TickStream where
  pointer : ℕ
  key : Name
  deriving DecidableEq, Repr

/-- Which of the things that the server numbers are skipped, and which of those that it has not
registered yet. -/
structure NameFilter (nmax : ℕ) where
  isSkipped : AbstractLUT Bool nmax
  isUnregisteredSkipped : Name → Option Bool

/-- `TickCursorImpl::SubscriptionState`. -/
structure SubscriptionState where
  isResetInProgress : Bool
  readingRestarted : Bool
  lastExpectedCommandId : ℤ
  firstExpectedCommandId : ℤ
  lastResetCommandId : ℤ
  tables : SymbolTranslator
  /-- `isSymbolSkipped_` and `isUnregisteredSymbolSkipped_`. -/
  symbols : NameFilter 0x10000
  /-- `isMessageDescriptorSkipped_` and `isUnregisteredMessageTypeSkipped_`. -/
  types : NameFilter 0x100
  /-- `isStreamSkipped_` and `isUnregisteredStreamSkipped_`. -/
  streams : NameFilter 0x100
  tickdbStreams : List (Option TickStream)

/-- The requests that change a subscription, with the id of the cursor and a time. -/
inductive Request
  | reset (id time : ℤ)
  | changeEntities (id time : ℤ) (mode : SubscrChangeAction) (entities : Option (List Name))
  | changeTypes (id time : ℤ) (mode : SubscrChangeAction) (types : Option (List Name))
  | changeStreams (id time : ℤ) (mode : SubscrChangeAction) (streams : Option (List TickStream))
  deriving DecidableEq, Repr

/-- Why a call on a cursor throws. -/
inductive CursorError
  /-- `std::out_of_range` of a lookup table. -/
  | outOfRange
  | requestFailed
  | commandSequenceBroken (received expected : ℤ)
  | instrumentOutOfSync (newId : ℕ)
  | messageTypeOutOfSync (newId : ℕ)
  | streamOutOfSync (newId : ℕ)
  | messageTypeUnparsable (newId : ℕ)
  | messageTypeTooBig (newId : ℕ)
  | unexpectedEntity (entityId : ℕ)
  | unexpectedMessageDescriptor (descriptorId : ℕ)
  | unexpectedStream (streamId : ℤ)
  | invalidResetCommand (reset first last : ℤ)
  | unexpectedCommand (expected received : ℤ)
  deriving DecidableEq, Repr

/-- The data members of `TickCursorImpl` that filtering uses; `subState_` with the two pointers into
it and `shadowCopyUpdated_` are in `subState`. -/
structure TickCursorImpl where
  state : CursorState
  isInterrupted : Bool
  cursorId : ℤ
  subscriptionTimeMs : ℤ
  isSystemMessage : ℕ → Bool
  subState : CopyOnWrite SubscriptionState

abbrev SubscriptionM (α : Type) := EStateM CursorError SubscriptionState α

/-- A member function of the cursor. -/
abbrev CursorM (α : Type) := EStateM CursorError TickCursorImpl α

/-- `USE_CURSOR_TIME`. -/
def useCursorTime : ℤ := -2 ^ 63 + 2

/-! ## The filters -/

namespace NameFilter

variable {nmax : ℕ}

/-- Forget everything; from now on this is what is done. -/
def clear (filter : NameFilter nmax) (isSkipping : Bool) : NameFilter nmax where
  isSkipped := (filter.isSkipped.setDefaultValue isSkipping).clear
  isUnregisteredSkipped := fun _ ↦ none

/-- The body of the loops of `modifyEntities`, `modifyTypes` and `modifyStreams`; nothing when it
throws. -/
def change (find : Name → Option ℕ)
    (setRegistered : AbstractLUT Bool nmax → ℕ → Bool → Option (AbstractLUT Bool nmax))
    (isRemoving : Bool) (name : Name) (filter : NameFilter nmax) : Option (NameFilter nmax) :=
  match find name with
  | some id => (setRegistered filter.isSkipped id isRemoving).map
      fun lut ↦ { filter with isSkipped := lut }
  | none =>
    if filter.isSkipped.defaultValue ≠ isRemoving then
      some { filter with
        isUnregisteredSkipped := Function.update filter.isUnregisteredSkipped name (some isRemoving) }
    else
      some filter

/-- A filter entry for a name moves to the number that the name is given. -/
def settle (newId : ℕ) (name : Name) (filter : NameFilter nmax) : Option (NameFilter nmax) :=
  match filter.isUnregisteredSkipped name with
  | none => some filter
  | some isSkipped => (filter.isSkipped.set newId isSkipped).map fun lut ↦
      ⟨lut, Function.update filter.isUnregisteredSkipped name none⟩

end NameFilter

/-- `modifyFilterSet`: the descriptor and all before it with the same type name. No more than `fuel`
of them are looked at, which is enough when that many are registered. -/
def modifyFilterSet (descriptors : List MessageDescriptor) (value : Bool) :
    ℕ → ℕ → AbstractLUT Bool 0x100 → Option (AbstractLUT Bool 0x100)
  | 0, _, filter => some filter
  | fuel + 1, index, filter =>
    if index < 0x100 then
      match filter.set index value, descriptors[index]? with
      | some filter, some descriptor => modifyFilterSet descriptors value fuel descriptor.nextSameType filter
      | _, _ => none
    else some filter

namespace SubscriptionState

/-- `isExecutingSubscriptions`. -/
def isExecutingSubscriptions (s : SubscriptionState) : Bool := s.lastExpectedCommandId ≠ -1

/-- `clearMessageFilters`. -/
def clearMessageFilters (s : SubscriptionState) (isSkippingAll : Bool) : SubscriptionState :=
  { s with
    symbols := s.symbols.clear isSkippingAll
    types := s.types.clear isSkippingAll
    streams := s.streams.clear isSkippingAll }

/-- A name in the list of `modifyEntities`. -/
def changeSymbol (isRemoving : Bool) (name : Name) (s : SubscriptionState) : Option SubscriptionState :=
  (s.symbols.change s.tables.findInstrument AbstractLUT.set isRemoving name).map
    fun filter ↦ { s with symbols := filter }

/-- A name in the list of `modifyTypes`. -/
def changeType (isRemoving : Bool) (name : Name) (s : SubscriptionState) : Option SubscriptionState :=
  (s.types.change s.tables.findMsgDescByType
    (fun filter id value ↦ modifyFilterSet s.tables.messageDescriptors value
      s.tables.messageDescriptors.length id filter) isRemoving name).map
    fun filter ↦ { s with types := filter }

/-- The main list of streams, in the loop of `modifyStreams`. -/
def updateStreamList (isRemoving : Bool) (stream : TickStream) :
    List (Option TickStream) → List (Option TickStream)
  | [] => if isRemoving then [] else [some stream]
  | entry :: list =>
    if entry = some stream then (if isRemoving then none else entry) :: list
    else entry :: updateStreamList isRemoving stream list

/-- A stream in the list of `modifyStreams`. -/
def changeStream (isRemoving : Bool) (stream : TickStream) (s : SubscriptionState) :
    Option SubscriptionState :=
  (s.streams.change s.tables.findStreamId AbstractLUT.set isRemoving stream.key).map
    fun filter ↦ { s with
      streams := filter
      tickdbStreams := updateStreamList isRemoving stream s.tickdbStreams }

end SubscriptionState

/-- A change of the state; the state stays when it throws. -/
def orOutOfRange (f : SubscriptionState → Option SubscriptionState) : SubscriptionM Unit := do
  match f (← get) with
  | some s => set s
  | none => throw .outOfRange

/-- What a change of a subscription does to all names: it skips all, skips none or leaves them. -/
def coversAll {α : Type} (names : Option (List α)) (action : SubscrChangeAction) : Bool :=
  names.isNone || action = .set

/-- The filter part of `modifyEntities`. -/
def filterEntities (entities : Option (List Name)) (action : SubscrChangeAction) : SubscriptionM Unit := do
  if coversAll entities action then
    modify fun s ↦ { s with symbols := s.symbols.clear (action ≠ .add) }
  (entities.getD []).forM fun name ↦ orOutOfRange (·.changeSymbol (action = .remove) name)

/-- The filter part of `modifyTypes`. -/
def filterTypes (types : Option (List Name)) (action : SubscrChangeAction) : SubscriptionM Unit := do
  if coversAll types action then
    modify fun s ↦ { s with types := s.types.clear (action ≠ .add) }
  (types.getD []).forM fun name ↦ orOutOfRange (·.changeType (action = .remove) name)

/-- The filter part of `modifyStreams`, where `SET` was replaced before. -/
def filterStreams (streams : Option (List TickStream)) (action : SubscrChangeAction) :
    SubscriptionM Unit := do
  if streams.isNone then
    modify fun s ↦ { s with streams := s.streams.clear (action ≠ .add) }
  (streams.getD []).forM fun stream ↦ orOutOfRange (·.changeStream (action = .remove) stream)
  modify fun s ↦ { s with tickdbStreams := none :: s.tickdbStreams.filter Option.isSome }

/-! ## Changing the subscription -/

def getWriteShadowState : CursorM Unit := modify fun c ↦ { c with subState := c.subState.forWriting }

/-- On the shadow state. -/
def onShadow (program : SubscriptionM Unit) : CursorM Unit :=
  zoom (fun c : TickCursorImpl ↦ c.subState.latest)
    (fun s c ↦ { c with subState := c.subState.write fun _ ↦ s }) id program

/-- On the main state. -/
def onMain (program : SubscriptionM Unit) : CursorM Unit :=
  zoom (fun c : TickCursorImpl ↦ c.subState.current)
    (fun s c ↦ { c with subState := c.subState.writeMain fun _ ↦ s }) id program

/-- `execute`: nothing when the server could not be asked or answered with an error. -/
def execute (answer : Request → Option ℤ) (request : Request) : CursorM ℤ :=
  match answer request with
  | some cmdId => return cmdId
  | none => throw .requestFailed

/-- The ids in `addSubscriptionCommand`. -/
def expectCommand (cmdId : ℤ) : SubscriptionM Unit := do
  let s ← get
  if s.lastExpectedCommandId = -1 then
    set { s with firstExpectedCommandId := cmdId, lastExpectedCommandId := cmdId }
  else
    let expected := s.lastExpectedCommandId + 1
    if cmdId ≠ expected then
      throw (.commandSequenceBroken cmdId expected)
    else
      set { s with lastExpectedCommandId := expected }

def addSubscriptionCommand (cmdId : ℤ) : CursorM Unit := do
  onShadow (expectCommand cmdId)
  modify fun c ↦ { c with state := .started }
  onShadow (modify fun s ↦ { s with readingRestarted := true })

def reset (answer : Request → Option ℤ) (dt : ℤ) : CursorM Unit := do
  getWriteShadowState
  onShadow (modify fun s ↦ { s with isResetInProgress := true }.clearMessageFilters false)
  modify fun c ↦ { c with subscriptionTimeMs := useCursorTime }
  let c ← get
  let cmdId ← execute answer (.reset c.cursorId dt)
  addSubscriptionCommand cmdId
  onShadow (modify fun s ↦ { s with lastResetCommandId := s.lastExpectedCommandId })

/-- What the changes of a subscription have in common: the filters, the request and the command. -/
def changeSubscription (answer : Request → Option ℤ) (filter : SubscriptionM Unit)
    (request : TickCursorImpl → Request) : CursorM Unit := do
  getWriteShadowState
  onShadow filter
  let c ← get
  let cmdId ← execute answer (request c)
  addSubscriptionCommand cmdId

def modifyEntities (answer : Request → Option ℤ) (entities : Option (List Name))
    (action : SubscrChangeAction) : CursorM Unit :=
  changeSubscription answer (filterEntities entities action)
    fun c ↦ .changeEntities c.cursorId c.subscriptionTimeMs action entities

def modifyTypes (answer : Request → Option ℤ) (types : Option (List Name))
    (action : SubscrChangeAction) : CursorM Unit :=
  changeSubscription answer (filterTypes types action)
    fun c ↦ .changeTypes c.cursorId c.subscriptionTimeMs action types

/-- What `modifyStreams` does under the lock. -/
def modifyStreamsLocked (answer : Request → Option ℤ) (streams : Option (List TickStream))
    (action : SubscrChangeAction) : CursorM Unit :=
  changeSubscription answer (filterStreams streams action)
    fun c ↦ .changeStreams c.cursorId c.subscriptionTimeMs action streams

/-- `modifyStreams`: `SET` removes all streams and then adds those of the list, if there are any. -/
def modifyStreams (answer : Request → Option ℤ) (streams : Option (List TickStream))
    (action : SubscrChangeAction) : CursorM Unit := do
  if action = .set then
    modifyStreamsLocked answer none .remove
    if streams.getD [] ≠ [] then
      modifyStreamsLocked answer streams .add
  else
    modifyStreamsLocked answer streams action

/-! ## What the server registers -/

def synchronizeCheck : CursorM Unit := modify fun c ↦ { c with subState := c.subState.takeOver }

def registerNewInstrument (newId : ℕ) (instr : Name) : SubscriptionM Unit := do
  let s ← get
  if s.tables.instruments.length ≠ newId then
    throw (.instrumentOutOfSync newId)
  else
    match s.tables.registerInstrument instr with
    | none => throw (.instrumentOutOfSync newId)
    | some tables =>
      set { s with tables := tables }
      orOutOfRange fun s ↦ (s.symbols.settle newId instr).map fun filter ↦ { s with symbols := filter }

/-- The filter value of a new message type: of the entry for its name, of its sibling, or the default
one. -/
def newTypeSkipped (filter : NameFilter 0x100) (typeName : Name) (sibling : Option ℕ) : Bool :=
  match filter.isUnregisteredSkipped typeName, sibling with
  | some isSkipped, _ => isSkipped
  | none, some sibling => filter.isSkipped.get sibling
  | none, none => filter.isSkipped.defaultValue

/-- `registerNewMessageType`; the descriptor is nothing when its text cannot be parsed. -/
def registerNewMessageType (newId : ℕ) (descriptor : Option (Name × Name)) : SubscriptionM Unit := do
  let s ← get
  if s.tables.messageDescriptors.length ≠ newId then
    throw (.messageTypeOutOfSync newId)
  else
    match descriptor with
    | none => throw (.messageTypeUnparsable newId)
    | some (typeName, guid) =>
      match s.tables.registerMessageDescriptor typeName guid with
      | none => throw (.messageTypeTooBig newId)
      | some tables =>
        let isSkipped := newTypeSkipped s.types typeName (s.tables.findMsgDescByType typeName)
        set { s with
          tables := tables
          types := { s.types with
            isUnregisteredSkipped := Function.update s.types.isUnregisteredSkipped typeName none } }
        orOutOfRange fun s ↦ (s.types.isSkipped.set newId isSkipped).map
          fun lut ↦ { s with types := { s.types with isSkipped := lut } }

def registerNewStream (newId : ℕ) (streamKey : Name) : SubscriptionM Unit := do
  let s ← get
  if s.tables.streamKeys.length ≠ newId ∨ (s.tables.findStreamId streamKey).isSome then
    throw (.streamOutOfSync newId)
  else
    set { s with tables := { s.tables with streamKeys := s.tables.streamKeys ++ [streamKey] } }
    orOutOfRange fun s ↦ (s.streams.settle newId streamKey).map fun filter ↦ { s with streams := filter }

/-- The guids of `isSystemMessageGuid`: `SYS:RealTimeStartMessage:1` and `SYS:DataLossMessage:1`. -/
def systemMessageGuids : List Name :=
  ["SYS:RealTimeStartMessage:1".toUTF8.toList, "SYS:DataLossMessage:1".toUTF8.toList]

def isSystemMessageGuid (guid : Name) : Bool := systemMessageGuids.contains guid

/-- `readEntity`, when the record was read. -/
def readEntity (symbolId : ℕ) (symbol : Name) : CursorM Unit := do
  synchronizeCheck
  onMain (registerNewInstrument symbolId symbol)

/-- `readMessageType`, when the record was read. -/
def readMessageType (descriptorId : ℕ) (descriptor : Option (Name × Name)) : CursorM Unit := do
  synchronizeCheck
  onMain (registerNewMessageType descriptorId descriptor)
  match descriptor with
  | some (_, guid) =>
    if isSystemMessageGuid guid then
      modify fun c ↦ { c with isSystemMessage := Function.update c.isSystemMessage descriptorId true }
  | none => return ()

/-- `readStreamKey`, when the record was read. -/
def readStreamKey (streamId : ℕ) (newStreamKey : Name) : CursorM Unit := do
  synchronizeCheck
  onMain (registerNewStream streamId newStreamKey)

/-! ## Records and messages -/

/-- The acknowledged command in `readNextRecord`. -/
def acknowledge (cmdId : ℤ) : SubscriptionM Unit := do
  let s ← get
  if cmdId ≠ s.firstExpectedCommandId then
    throw (.unexpectedCommand s.firstExpectedCommandId cmdId)
  else
    if s.isResetInProgress then
      if cmdId = s.lastResetCommandId then
        set { s with isResetInProgress := false, lastResetCommandId := -1 }
      else if ¬ (s.firstExpectedCommandId ≤ s.lastResetCommandId ∧
          s.lastResetCommandId < s.lastExpectedCommandId + 1) then
        throw (.invalidResetCommand s.lastResetCommandId s.firstExpectedCommandId
          s.lastExpectedCommandId)
    modify fun t ↦ { t with
      firstExpectedCommandId :=
        if s.firstExpectedCommandId = s.lastExpectedCommandId then -1 else t.firstExpectedCommandId + 1
      lastExpectedCommandId :=
        if s.firstExpectedCommandId = s.lastExpectedCommandId then -1 else t.lastExpectedCommandId }

/-- `COMMAND_BLOCK_ID` in `readNextRecord`. -/
def readCommand (cmdId : ℤ) : CursorM Unit := do
  synchronizeCheck
  onMain (acknowledge cmdId)

/-- `TERMINATOR_BLOCK_ID` in `readNextRecord`; false when the cursor has ended. -/
def readTerminator : CursorM Bool := do
  synchronizeCheck
  let c ← get
  if c.subState.current.isExecutingSubscriptions ∧ ¬ c.isInterrupted then
    return true
  else
    set { c with state := .ended }
    return false

/-- In `readNextMessageInBlock` the reader takes over what was written. -/
def takeOverInBlock : CursorM Unit := do
  let c ← get
  if c.subState.updated then
    modify fun c ↦ { c with subState := c.subState.takeOver }
    let c ← get
    if c.subState.current.readingRestarted then
      onMain (modify fun s ↦ { s with readingRestarted := false })
      modify fun c ↦ { c with state := .started }

/-- Whether a message is skipped, of a cursor in this state. -/
def isMessageSkipped (isSystemMessage : ℕ → Bool) (s : SubscriptionState) (entityId descriptorId : ℕ) :
    Bool :=
  s.isResetInProgress ||
    (!isSystemMessage descriptorId &&
      (s.types.isSkipped.get descriptorId || s.symbols.isSkipped.get entityId))

/-- What `readNextMessageInBlock` does with a message whose header was read; false when it is
skipped. -/
def filterMessage (entityId descriptorId : ℕ) (streamId : ℤ) : CursorM Bool := do
  takeOverInBlock
  let c ← get
  let s := c.subState.current
  if ¬ s.tables.isRegisteredInstrumentId entityId then
    throw (.unexpectedEntity entityId)
  else if ¬ s.tables.isRegisteredMsgDescId descriptorId then
    throw (.unexpectedMessageDescriptor descriptorId)
  else if (s.tables.streamKeys.length : ℤ) ≤ streamId then
    throw (.unexpectedStream streamId)
  else if isMessageSkipped c.isSystemMessage s entityId descriptorId then
    return false
  else
    set { c with state := .reading }
    return true

/-! ## An open cursor -/

def NameFilter.empty (nmax : ℕ) : NameFilter nmax := ⟨⟨false, [], Nat.zero_le _⟩, fun _ ↦ none⟩

/-- The state of a cursor for which nothing was registered yet. -/
def SubscriptionState.empty : SubscriptionState where
  isResetInProgress := false
  readingRestarted := false
  lastExpectedCommandId := -1
  firstExpectedCommandId := -1
  lastResetCommandId := -1
  tables := SymbolTranslator.empty
  symbols := .empty _
  types := .empty _
  streams := .empty _
  tickdbStreams := [none]

/-- A cursor as `select` opens it. -/
def openedCursor : TickCursorImpl where
  state := .started
  isInterrupted := false
  cursorId := 0
  subscriptionTimeMs := 0
  isSystemMessage := fun _ ↦ false
  subState := .ofValue .empty

/-! ## The latest state -/

/-- The rest of the cursor is as it was. -/
def SubStateOnly (c c' : TickCursorImpl) : Prop := c' = { c with subState := c'.subState }

section

variable {program : SubscriptionM Unit} {post fail : SubscriptionState → Prop} {c : TickCursorImpl}

theorem getWriteShadowState_spec (hc : c.subState.WellFormed) :
    wp getWriteShadowState (fun _ c' ↦ c'.subState.WellFormed ∧ SubStateOnly c c' ∧
      c'.subState.latest = c.subState.latest) (fun _ _ ↦ False) c := by
  rw [getWriteShadowState, wp_modify]
  exact ⟨c.subState.wellFormed_forWriting hc, rfl, CopyOnWrite.latest_forWriting _⟩

/-- On the shadow state a program works on the latest state. -/
theorem onShadow_spec {fail : CursorError → SubscriptionState → Prop} (hc : c.subState.WellFormed)
    (h : wp program (fun _ ↦ post) fail c.subState.latest) :
    wp (onShadow program)
      (fun _ c' ↦ c'.subState.WellFormed ∧ SubStateOnly c c' ∧ post c'.subState.latest)
      (fun error c' ↦ c'.subState.WellFormed ∧ SubStateOnly c c' ∧ fail error c'.subState.latest) c := by
  rw [onShadow, wp_zoom]
  apply wp_mono h
  · intro _ s hs
    exact ⟨CopyOnWrite.wellFormed_write hc, rfl, by rwa [CopyOnWrite.latest_write]⟩
  · intro _ s hs
    exact ⟨CopyOnWrite.wellFormed_write hc, rfl, by rwa [CopyOnWrite.latest_write]⟩

/-- So does a program on the main state, after what was written has been taken over. -/
theorem synchronized_spec (hc : c.subState.WellFormed)
    (h : wp program (fun _ ↦ post) (fun _ ↦ fail) c.subState.latest) :
    wp (do synchronizeCheck; onMain program)
      (fun _ c' ↦ c'.subState.WellFormed ∧ SubStateOnly c c' ∧ post c'.subState.latest)
      (fun _ c' ↦ c'.subState.WellFormed ∧ SubStateOnly c c' ∧ fail c'.subState.latest) c := by
  rw [wp_bind, synchronizeCheck, wp_modify, onMain, wp_zoom]
  simp only [CopyOnWrite.current_takeOver hc]
  have htaken := CopyOnWrite.wellFormed_takeOver hc
  apply wp_mono h
  · intro _ s hs
    exact ⟨CopyOnWrite.wellFormed_writeMain htaken, rfl,
      by rwa [CopyOnWrite.latest_writeMain_takeOver hc]⟩
  · intro _ s hs
    exact ⟨CopyOnWrite.wellFormed_writeMain htaken, rfl,
      by rwa [CopyOnWrite.latest_writeMain_takeOver hc]⟩

theorem readMessageType_spec {descriptorId : ℕ} {descriptor : Option (Name × Name)}
    (hc : c.subState.WellFormed)
    (h : wp (registerNewMessageType descriptorId descriptor) (fun _ ↦ post) (fun _ ↦ fail)
      c.subState.latest) :
    wp (readMessageType descriptorId descriptor)
      (fun _ c' ↦ c'.subState.WellFormed ∧ c'.isInterrupted = c.isInterrupted ∧ post c'.subState.latest)
      (fun _ c' ↦ c'.subState.WellFormed ∧ c'.isInterrupted = c.isInterrupted ∧ fail c'.subState.latest)
      c := by
  have hregister := wp_bind.mp (synchronized_spec hc h)
  unfold readMessageType
  rw [wp_bind]
  apply wp_mono hregister
  · intro _ c₁ h₁
    rw [wp_bind]
    apply wp_mono h₁
    · intro _ c₂ h₂
      have hint : c₂.isInterrupted = c.isInterrupted := by rw [h₂.2.1]
      cases descriptor with
      | none => exact ⟨h₂.1, hint, h₂.2.2⟩
      | some named =>
        simp only [wp_ite, wp_modify, wp_pure]
        exact ⟨fun _ ↦ ⟨h₂.1, hint, h₂.2.2⟩, fun _ ↦ ⟨h₂.1, hint, h₂.2.2⟩⟩
    · intro _ c₂ h₂
      exact ⟨h₂.1, by rw [h₂.2.1], h₂.2.2⟩
  · intro _ c₁ h₁
    exact ⟨h₁.1, by rw [h₁.2.1], h₁.2.2⟩

end

end DxApi.Cursor
