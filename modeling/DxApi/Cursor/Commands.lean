import DxApi.Cursor.TickCursor
import Mathlib.Logic.Relation

/-!
# Commands of a cursor

Each change of the subscription starts a command on the server, which numbers its commands one after
another and acknowledges them in that order. The cursor has to know which are not acknowledged yet,
and whether the last reset is among them, since until then every message is skipped. Clients start
commands while the reader reads; a step is what one of them does under the lock.
-/

namespace DxApi.Cursor

open Exec

/-- What a state knows of the commands. -/
structure KnownCommands where
  isResetInProgress : Bool
  firstExpectedCommandId : ℤ
  lastExpectedCommandId : ℤ
  lastResetCommandId : ℤ
  deriving DecidableEq, Repr

def SubscriptionState.commands (s : SubscriptionState) : KnownCommands :=
  ⟨s.isResetInProgress, s.firstExpectedCommandId, s.lastExpectedCommandId, s.lastResetCommandId⟩

/-! ## What does not touch the commands -/

/-- The state knows these commands. -/
def Knows (k : KnownCommands) (s : SubscriptionState) : Prop := s.commands = k

/-- The latest state knows these commands, and the cursor was interrupted or not. -/
structure CursorKnows (k : KnownCommands) (isInterrupted : Bool) (c : TickCursorImpl) : Prop where
  wellFormed : c.subState.WellFormed
  commands : c.subState.latest.commands = k
  isInterrupted_eq : c.isInterrupted = isInterrupted

variable {k : KnownCommands} {isInterrupted : Bool}

theorem orOutOfRange_knows {f : SubscriptionState → Option SubscriptionState}
    (h : ∀ s s', f s = some s' → s'.commands = s.commands) : Preserves (Knows k) (orOutOfRange f) := by
  intro s hs
  simp only [orOutOfRange, wp_bind, wp_get]
  cases hf : f s with
  | none => exact hs
  | some s' => exact (h s s' hf).trans hs

theorem changeSymbol_commands {isRemoving : Bool} {name : Name} {s s' : SubscriptionState}
    (h : s.changeSymbol isRemoving name = some s') : s'.commands = s.commands := by
  unfold SubscriptionState.changeSymbol at h
  obtain ⟨filter, -, rfl⟩ := Option.map_eq_some_iff.mp h
  rfl

theorem changeType_commands {isRemoving : Bool} {name : Name} {s s' : SubscriptionState}
    (h : s.changeType isRemoving name = some s') : s'.commands = s.commands := by
  unfold SubscriptionState.changeType at h
  obtain ⟨filter, -, rfl⟩ := Option.map_eq_some_iff.mp h
  rfl

theorem changeStream_commands {isRemoving : Bool} {stream : TickStream} {s s' : SubscriptionState}
    (h : s.changeStream isRemoving stream = some s') : s'.commands = s.commands := by
  unfold SubscriptionState.changeStream at h
  obtain ⟨filter, -, rfl⟩ := Option.map_eq_some_iff.mp h
  rfl

theorem filterEntities_knows (entities : Option (List Name)) (action : SubscrChangeAction) :
    Preserves (Knows k) (filterEntities entities action) := by
  have hloop : Preserves (Knows k) ((entities.getD []).forM fun name ↦
      orOutOfRange (·.changeSymbol (action = .remove) name)) :=
    Preserves.forM fun _ ↦ orOutOfRange_knows fun _ _ ↦ changeSymbol_commands
  unfold filterEntities
  apply Preserves.ite
  · apply Preserves.bind
    · exact preserves_modify fun _ h ↦ h
    · intro _
      exact hloop
  · exact hloop

theorem filterTypes_knows (types : Option (List Name)) (action : SubscrChangeAction) :
    Preserves (Knows k) (filterTypes types action) := by
  have hloop : Preserves (Knows k) ((types.getD []).forM fun name ↦
      orOutOfRange (·.changeType (action = .remove) name)) :=
    Preserves.forM fun _ ↦ orOutOfRange_knows fun _ _ ↦ changeType_commands
  unfold filterTypes
  apply Preserves.ite
  · apply Preserves.bind
    · exact preserves_modify fun _ h ↦ h
    · intro _
      exact hloop
  · exact hloop

theorem filterStreams_knows (streams : Option (List TickStream)) (action : SubscrChangeAction) :
    Preserves (Knows k) (filterStreams streams action) := by
  have hrest : Preserves (Knows k) (do
      (streams.getD []).forM fun stream ↦ orOutOfRange (·.changeStream (action = .remove) stream)
      modify fun s ↦ { s with tickdbStreams := none :: s.tickdbStreams.filter Option.isSome }) := by
    apply Preserves.bind
    · exact Preserves.forM fun _ ↦ orOutOfRange_knows fun _ _ ↦ changeStream_commands
    · intro _
      exact preserves_modify fun _ h ↦ h
  unfold filterStreams
  apply Preserves.ite
  · apply Preserves.bind
    · exact preserves_modify fun _ h ↦ h
    · intro _
      exact hrest
  · exact hrest

theorem registerNewInstrument_knows (newId : ℕ) (instr : Name) :
    Preserves (Knows k) (registerNewInstrument newId instr) := by
  intro s hs
  simp only [registerNewInstrument, wp_bind, wp_get, wp_ite, wp_throw]
  apply And.intro (fun _ ↦ hs)
  intro _
  cases s.tables.registerInstrument instr with
  | none => exact hs
  | some tables =>
    have hsettle : Preserves (Knows k) (orOutOfRange fun s ↦
        (s.symbols.settle newId instr).map fun filter ↦ { s with symbols := filter }) := by
      apply orOutOfRange_knows
      intro s s' h
      obtain ⟨filter, -, rfl⟩ := Option.map_eq_some_iff.mp h
      rfl
    exact hsettle { s with tables := tables } hs

theorem registerNewMessageType_knows (newId : ℕ) (descriptor : Option (Name × Name)) :
    Preserves (Knows k) (registerNewMessageType newId descriptor) := by
  intro s hs
  simp only [registerNewMessageType, wp_bind, wp_get, wp_ite, wp_throw]
  apply And.intro (fun _ ↦ hs)
  intro _
  cases descriptor with
  | none => exact hs
  | some named =>
    obtain ⟨typeName, guid⟩ := named
    dsimp only
    cases s.tables.registerMessageDescriptor typeName guid with
    | none => exact hs
    | some tables =>
      have hset : ∀ isSkipped, Preserves (Knows k) (orOutOfRange fun s ↦
          (s.types.isSkipped.set newId isSkipped).map
            fun lut ↦ { s with types := { s.types with isSkipped := lut } }) := by
        intro isSkipped
        apply orOutOfRange_knows
        intro s s' h
        obtain ⟨lut, -, rfl⟩ := Option.map_eq_some_iff.mp h
        rfl
      exact hset _ _ hs

theorem registerNewStream_knows (newId : ℕ) (streamKey : Name) :
    Preserves (Knows k) (registerNewStream newId streamKey) := by
  intro s hs
  simp only [registerNewStream, wp_bind, wp_get, wp_ite, wp_throw]
  apply And.intro (fun _ ↦ hs)
  intro _
  have hsettle : Preserves (Knows k) (orOutOfRange fun s ↦
      (s.streams.settle newId streamKey).map fun filter ↦ { s with streams := filter }) := by
    apply orOutOfRange_knows
    intro s s' h
    obtain ⟨filter, -, rfl⟩ := Option.map_eq_some_iff.mp h
    rfl
  exact hsettle { s with tables := { s.tables with streamKeys := s.tables.streamKeys ++ [streamKey] } } hs

/-- What the reader registers leaves the commands alone. -/
theorem synchronized_knows {program : SubscriptionM Unit} (h : Preserves (Knows k) program) :
    Preserves (CursorKnows k isInterrupted) (do synchronizeCheck; onMain program) := by
  intro c hc
  apply wp_mono (synchronized_spec hc.wellFormed (h _ hc.commands))
  · intro _ c' h'
    exact ⟨h'.1, h'.2.2, by rw [h'.2.1]; exact hc.isInterrupted_eq⟩
  · intro _ c' h'
    exact ⟨h'.1, h'.2.2, by rw [h'.2.1]; exact hc.isInterrupted_eq⟩

theorem readEntity_knows (symbolId : ℕ) (symbol : Name) :
    Preserves (CursorKnows k isInterrupted) (readEntity symbolId symbol) :=
  synchronized_knows (registerNewInstrument_knows symbolId symbol)

theorem readStreamKey_knows (streamId : ℕ) (newStreamKey : Name) :
    Preserves (CursorKnows k isInterrupted) (readStreamKey streamId newStreamKey) :=
  synchronized_knows (registerNewStream_knows streamId newStreamKey)

theorem CursorKnows.congr {c c' : TickCursorImpl} (h : CursorKnows k isInterrupted c)
    (hsub : c'.subState = c.subState) (hint : c'.isInterrupted = c.isInterrupted) :
    CursorKnows k isInterrupted c' := by
  constructor
  · rw [hsub]
    exact h.wellFormed
  · rw [hsub]
    exact h.commands
  · rw [hint]
    exact h.isInterrupted_eq

theorem CursorKnows.own {c : TickCursorImpl} (h : CursorKnows k isInterrupted c) :
    CursorKnows k c.isInterrupted c :=
  ⟨h.wellFormed, h.commands, rfl⟩

theorem readMessageType_knows (descriptorId : ℕ) (descriptor : Option (Name × Name)) :
    Preserves (CursorKnows k isInterrupted) (readMessageType descriptorId descriptor) := by
  intro c hc
  have hread := readMessageType_spec hc.wellFormed
    (registerNewMessageType_knows descriptorId descriptor _ hc.commands)
  apply wp_mono hread
  · exact fun _ c' h' ↦ ⟨h'.1, h'.2.2, h'.2.1.trans hc.isInterrupted_eq⟩
  · exact fun _ c' h' ↦ ⟨h'.1, h'.2.2, h'.2.1.trans hc.isInterrupted_eq⟩

theorem takeOverInBlock_knows : Preserves (CursorKnows k isInterrupted) takeOverInBlock := by
  intro c hc
  have hstay : CursorKnows k isInterrupted { c with subState := c.subState.takeOver } :=
    ⟨CopyOnWrite.wellFormed_takeOver hc.wellFormed,
      (congrArg _ (CopyOnWrite.latest_takeOver _)).trans hc.commands, hc.isInterrupted_eq⟩
  simp only [takeOverInBlock, wp_bind, wp_get, wp_ite, wp_modify, wp_pure, onMain, wp_zoom]
  apply And.intro
  · intro _
    apply And.intro
    · intro _
      refine ⟨CopyOnWrite.wellFormed_writeMain hstay.wellFormed, ?_, hc.isInterrupted_eq⟩
      rw [CopyOnWrite.latest_writeMain_takeOver hc.wellFormed]
      rw [CopyOnWrite.current_takeOver hc.wellFormed]
      exact hc.commands
    · intro _
      exact hstay
  · intro _
    exact hc

theorem filterMessage_knows (entityId descriptorId : ℕ) (streamId : ℤ) :
    Preserves (CursorKnows k isInterrupted) (filterMessage entityId descriptorId streamId) := by
  intro c hc
  rw [filterMessage, wp_bind]
  apply wp_mono (takeOverInBlock_knows c hc)
  · intro _ c' hc'
    simp only [wp_bind, wp_get, wp_ite, wp_throw, wp_set, wp_pure]
    exact ⟨fun _ ↦ hc', fun _ ↦ ⟨fun _ ↦ hc', fun _ ↦ ⟨fun _ ↦ hc', fun _ ↦
      ⟨fun _ ↦ hc', fun _ ↦ hc'.congr rfl rfl⟩⟩⟩⟩
  · exact fun _ _ hc' ↦ hc'

/-! ## What the calls and the reader do to the commands -/

namespace KnownCommands

/-- A command was started. -/
def expect (cmdId : ℤ) (k : KnownCommands) : KnownCommands :=
  { k with
    firstExpectedCommandId := if k.lastExpectedCommandId = -1 then cmdId else k.firstExpectedCommandId
    lastExpectedCommandId := cmdId }

end KnownCommands

theorem expectCommand_spec (cmdId : ℤ) {s : SubscriptionState} (hs : s.commands = k) :
    wp (expectCommand cmdId) (fun _ s' ↦ s'.commands = k.expect cmdId) (fun _ _ ↦ True) s := by
  subst hs
  simp only [expectCommand, wp_bind, wp_get, wp_ite, wp_throw, wp_set]
  apply And.intro
  · intro hnone
    simp [SubscriptionState.commands, KnownCommands.expect, hnone]
  · intro hsome
    apply And.intro (fun _ ↦ trivial)
    intro hnext
    simp [SubscriptionState.commands, KnownCommands.expect, hsome, not_not.mp hnext]

theorem onShadow_knows {program : SubscriptionM Unit} {k' : KnownCommands} {c : TickCursorImpl}
    (hc : CursorKnows k isInterrupted c)
    (h : wp program (fun _ ↦ Knows k') (fun _ _ ↦ True) c.subState.latest) :
    wp (onShadow program) (fun _ ↦ CursorKnows k' isInterrupted) (fun _ _ ↦ True) c := by
  apply wp_mono (onShadow_spec hc.wellFormed h)
  · intro _ c' h'
    refine ⟨h'.1, h'.2.2, ?_⟩
    rw [h'.2.1]
    exact hc.isInterrupted_eq
  · exact fun _ _ _ ↦ trivial

theorem addSubscriptionCommand_knows (cmdId : ℤ) {c : TickCursorImpl}
    (hc : CursorKnows k isInterrupted c) :
    wp (addSubscriptionCommand cmdId) (fun _ ↦ CursorKnows (k.expect cmdId) isInterrupted)
      (fun _ _ ↦ True) c := by
  apply wp_call (onShadow_knows hc (expectCommand_spec cmdId hc.commands))
  · intro _ c₁ hc₁
    rw [wp_bind, wp_modify]
    have hstarted : CursorKnows (k.expect cmdId) isInterrupted { c₁ with state := .started } :=
      hc₁.congr rfl rfl
    exact onShadow_knows hstarted hstarted.commands
  · exact fun _ _ _ ↦ trivial

theorem getWriteShadowState_knows {c : TickCursorImpl} (hc : CursorKnows k isInterrupted c) :
    wp getWriteShadowState (fun _ ↦ CursorKnows k isInterrupted) (fun _ _ ↦ True) c := by
  apply wp_mono (getWriteShadowState_spec hc.wellFormed)
  · intro _ c' h'
    refine ⟨h'.1, ?_, ?_⟩
    · rw [h'.2.2]
      exact hc.commands
    · rw [h'.2.1]
      exact hc.isInterrupted_eq
  · exact fun _ _ _ ↦ trivial

theorem changeSubscription_knows {filter : SubscriptionM Unit} (request : TickCursorImpl → Request)
    (cmdId : ℤ) (hfilter : ∀ k, Preserves (Knows k) filter) {c : TickCursorImpl}
    (hc : CursorKnows k isInterrupted c) :
    wp (changeSubscription (fun _ ↦ some cmdId) filter request)
      (fun _ ↦ CursorKnows (k.expect cmdId) isInterrupted) (fun _ _ ↦ True) c := by
  apply wp_call (getWriteShadowState_knows hc)
  · intro _ c₁ hc₁
    have hkept : wp filter (fun _ ↦ Knows k) (fun _ _ ↦ True) c₁.subState.latest :=
      wp_mono (hfilter k _ hc₁.commands) (fun _ _ h ↦ h) (fun _ _ _ ↦ trivial)
    apply wp_call (onShadow_knows hc₁ hkept)
    · intro _ c₂ hc₂
      exact addSubscriptionCommand_knows cmdId hc₂
    · exact fun _ _ _ ↦ trivial
  · exact fun _ _ _ ↦ trivial

namespace KnownCommands

/-- A reset was started. -/
def expectReset (cmdId : ℤ) (k : KnownCommands) : KnownCommands :=
  { k.expect cmdId with isResetInProgress := true, lastResetCommandId := cmdId }

end KnownCommands

theorem reset_knows (cmdId dt : ℤ) {c : TickCursorImpl} (hc : CursorKnows k isInterrupted c) :
    wp (reset (fun _ ↦ some cmdId) dt) (fun _ ↦ CursorKnows (k.expectReset cmdId) isInterrupted)
      (fun _ _ ↦ True) c := by
  apply wp_call (getWriteShadowState_knows hc)
  · intro _ c₁ hc₁
    have hclear : wp (modify fun s : SubscriptionState ↦
          { s with isResetInProgress := true }.clearMessageFilters false : SubscriptionM Unit)
        (fun _ ↦ Knows { k with isResetInProgress := true }) (fun _ _ ↦ True) c₁.subState.latest := by
      have hcommands := hc₁.commands
      simp only [wp_modify, Knows, ← hcommands]
      rfl
    apply wp_call (onShadow_knows hc₁ hclear)
    · intro _ c₂ hc₂
      have hcursorTime : CursorKnows { k with isResetInProgress := true } isInterrupted
          { c₂ with subscriptionTimeMs := useCursorTime } := hc₂.congr rfl rfl
      apply wp_call (addSubscriptionCommand_knows cmdId hcursorTime)
      · intro _ c₃ hc₃
        apply onShadow_knows hc₃
        have hcommands := hc₃.commands
        simp only [wp_modify, Knows, SubscriptionState.commands, KnownCommands.expect,
          KnownCommands.mk.injEq] at hcommands ⊢
        simp [KnownCommands.expectReset, KnownCommands.expect, hcommands]
      · exact fun _ _ _ ↦ trivial
    · exact fun _ _ _ ↦ trivial
  · exact fun _ _ _ ↦ trivial

namespace KnownCommands

/-- The acknowledgement of the first expected command is in order. -/
structure Acceptable (k : KnownCommands) (cmdId : ℤ) : Prop where
  first : k.firstExpectedCommandId = cmdId
  reset : k.isResetInProgress = true →
    k.firstExpectedCommandId ≤ k.lastResetCommandId ∧ k.lastResetCommandId ≤ k.lastExpectedCommandId

/-- A command was acknowledged. -/
def acknowledged (cmdId : ℤ) (k : KnownCommands) : KnownCommands :=
  { isResetInProgress :=
      if k.isResetInProgress = true ∧ cmdId = k.lastResetCommandId then false else k.isResetInProgress
    firstExpectedCommandId :=
      if k.firstExpectedCommandId = k.lastExpectedCommandId then -1 else k.firstExpectedCommandId + 1
    lastExpectedCommandId :=
      if k.firstExpectedCommandId = k.lastExpectedCommandId then -1 else k.lastExpectedCommandId
    lastResetCommandId :=
      if k.isResetInProgress = true ∧ cmdId = k.lastResetCommandId then -1 else k.lastResetCommandId }

end KnownCommands

theorem acknowledge_spec {cmdId : ℤ} (hk : k.Acceptable cmdId) {s : SubscriptionState}
    (hs : s.commands = k) :
    wp (acknowledge cmdId) (fun _ ↦ Knows (k.acknowledged cmdId)) (fun _ _ ↦ False) s := by
  subst hs
  have hfirst := hk.first
  have hreset := hk.reset
  simp only [SubscriptionState.commands] at hfirst hreset
  simp only [acknowledge, wp_bind, wp_get, wp_ite, wp_throw, wp_set, wp_modify]
  apply And.intro
  · intro hne
    exact hne hfirst.symm
  intro _
  apply And.intro
  · intro hprogress
    have hrange := hreset hprogress
    apply And.intro
    · intro hlast
      simp [Knows, SubscriptionState.commands, KnownCommands.acknowledged, hprogress, hlast]
    · intro hother
      apply And.intro
      · intro hout
        exact hout ⟨hrange.1, by omega⟩
      · intro _
        simp only [Knows, SubscriptionState.commands, KnownCommands.acknowledged, hother, and_false,
          if_false]
        rfl
  · intro hnone
    simp [Knows, SubscriptionState.commands, KnownCommands.acknowledged, hnone]

theorem readCommand_knows {cmdId : ℤ} (hk : k.Acceptable cmdId) {c : TickCursorImpl}
    (hc : CursorKnows k isInterrupted c) :
    wp (readCommand cmdId) (fun _ ↦ CursorKnows (k.acknowledged cmdId) isInterrupted)
      (fun _ _ ↦ False) c := by
  apply wp_mono (@synchronized_spec _ _ (fun _ ↦ False) _ hc.wellFormed
    (acknowledge_spec hk hc.commands))
  · intro _ c' h'
    refine ⟨h'.1, h'.2.2, ?_⟩
    rw [h'.2.1]
    exact hc.isInterrupted_eq
  · exact fun _ _ h' ↦ h'.2.2

/-- A terminator ends the cursor, unless it is waiting for a command and was not interrupted. -/
theorem readTerminator_knows {c : TickCursorImpl} (hc : CursorKnows k isInterrupted c) :
    wp readTerminator
      (fun goesOn c' ↦ CursorKnows k isInterrupted c' ∧
        (goesOn = true ↔ k.lastExpectedCommandId ≠ -1 ∧ isInterrupted = false) ∧
        c'.state = if goesOn then c.state else .ended)
      (fun _ _ ↦ False) c := by
  have hint := hc.isInterrupted_eq
  subst hint
  have htaken : CursorKnows k c.isInterrupted { c with subState := c.subState.takeOver } :=
    ⟨CopyOnWrite.wellFormed_takeOver hc.wellFormed,
      (congrArg _ (CopyOnWrite.latest_takeOver _)).trans hc.commands, hc.isInterrupted_eq⟩
  have hlast : c.subState.takeOver.current.lastExpectedCommandId = k.lastExpectedCommandId := by
    rw [CopyOnWrite.current_takeOver hc.wellFormed, ← hc.commands]
    rfl
  simp only [readTerminator, synchronizeCheck, wp_bind, wp_modify, wp_get, wp_ite, wp_pure, wp_set,
    SubscriptionState.isExecutingSubscriptions, hlast]
  apply And.intro
  · intro hwaiting
    exact ⟨htaken, by simpa using hwaiting, rfl⟩
  · intro hends
    exact ⟨htaken.congr rfl rfl, by simpa using hends, rfl⟩

/-! ## Sessions -/

/-- A cursor and its server, which has issued the commands below `issued` and acknowledged those
below `acknowledged`. -/
structure Session where
  cursor : TickCursorImpl
  issued : ℕ
  acknowledged : ℕ
  /-- The command of the last reset. -/
  lastReset : Option ℕ

/-- What one of the threads does under the lock, or the server. A `SET` of `modifyStreams` takes the
lock twice. -/
inductive SessionStep
  | reset (dt : ℤ)
  | modifyEntities (entities : Option (List Name)) (action : SubscrChangeAction)
  | modifyTypes (types : Option (List Name)) (action : SubscrChangeAction)
  | modifyStreams (streams : Option (List TickStream)) (action : SubscrChangeAction)
  | readEntity (symbolId : ℕ) (symbol : Name)
  | readMessageType (descriptorId : ℕ) (descriptor : Option (Name × Name))
  | readStreamKey (streamId : ℕ) (streamKey : Name)
  | readMessage (entityId descriptorId : ℕ) (streamId : ℤ)
  | readCommand
  | readTerminator
  | interrupt

namespace Session

/-- A client changes the subscription and the server starts a command; a call that throws is not part
of a session. -/
def call (program : (Request → Option ℤ) → CursorM Unit) (isReset : Bool) (s : Session) : Option Session :=
  match program (fun _ ↦ some s.issued) s.cursor with
  | .ok _ cursor => some { s with
      cursor := cursor
      issued := s.issued + 1
      lastReset := if isReset then some s.issued else s.lastReset }
  | .error _ _ => none

/-- The reader, whether it throws or not. -/
def read {α : Type} (program : CursorM α) (s : Session) : Session :=
  { s with cursor := finalState program s.cursor }

def step (s : Session) : SessionStep → Option Session
  | .reset dt => s.call (Cursor.reset · dt) true
  | .modifyEntities entities action => s.call (Cursor.modifyEntities · entities action) false
  | .modifyTypes types action => s.call (Cursor.modifyTypes · types action) false
  | .modifyStreams streams action => s.call (modifyStreamsLocked · streams action) false
  | .readEntity symbolId symbol => some (s.read (Cursor.readEntity symbolId symbol))
  | .readMessageType descriptorId descriptor =>
    some (s.read (Cursor.readMessageType descriptorId descriptor))
  | .readStreamKey streamId streamKey => some (s.read (Cursor.readStreamKey streamId streamKey))
  | .readMessage entityId descriptorId streamId =>
    some (s.read (filterMessage entityId descriptorId streamId))
  | .readCommand =>
    if s.acknowledged < s.issued then
      some { s.read (Cursor.readCommand s.acknowledged) with acknowledged := s.acknowledged + 1 }
    else none
  | .readTerminator => some (s.read Cursor.readTerminator)
  | .interrupt => some { s with cursor := { s.cursor with isInterrupted := true, state := .ended } }

def run : List SessionStep → Session → Option Session
  | [], s => some s
  | next :: steps, s => (s.step next).bind (run steps)

/-- A cursor as `select` opens it. -/
structure Opened (s : Session) : Prop where
  wellFormed : s.cursor.subState.WellFormed
  first : s.cursor.subState.latest.firstExpectedCommandId = -1
  last : s.cursor.subState.latest.lastExpectedCommandId = -1
  reset : s.cursor.subState.latest.isResetInProgress = false
  issued : s.issued = s.acknowledged
  lastReset : s.lastReset = none

/-- The expected commands are those that were issued and not acknowledged. -/
def SpansUnacknowledged (s : Session) (k : KnownCommands) : Prop :=
  if s.acknowledged = s.issued then k.firstExpectedCommandId = -1 ∧ k.lastExpectedCommandId = -1
  else k.firstExpectedCommandId = s.acknowledged ∧ k.lastExpectedCommandId + 1 = s.issued

/-- The last reset was not acknowledged. -/
def AwaitsReset (s : Session) : Prop := ∃ cmdId, s.lastReset = some cmdId ∧ s.acknowledged ≤ cmdId

/-- What a session keeps. -/
structure Invariant (s : Session) (k : KnownCommands) : Prop where
  cursor : CursorKnows k s.cursor.isInterrupted s.cursor
  le : s.acknowledged ≤ s.issued
  spans : s.SpansUnacknowledged k
  awaits : k.isResetInProgress = true ↔ s.AwaitsReset
  lastReset : ∀ cmdId, s.lastReset = some cmdId → cmdId < s.issued
  lastReset_eq : ∀ cmdId, s.lastReset = some cmdId → s.acknowledged ≤ cmdId →
    k.lastResetCommandId = cmdId

variable {s s' : Session}

theorem Opened.invariant (h : s.Opened) : s.Invariant s.cursor.subState.latest.commands where
  cursor := ⟨h.wellFormed, rfl, rfl⟩
  le := Nat.le_of_eq h.issued.symm
  spans := by
    rw [SpansUnacknowledged, if_pos h.issued.symm]
    exact ⟨h.first, h.last⟩
  awaits := by
    simp [SubscriptionState.commands, h.reset, AwaitsReset, h.lastReset]
  lastReset := by simp [h.lastReset]
  lastReset_eq := by simp [h.lastReset]

/-- The reader may do anything that leaves the commands alone. -/
theorem Invariant.of_cursor {k : KnownCommands} {cursor : TickCursorImpl} (h : s.Invariant k)
    (hcursor : CursorKnows k cursor.isInterrupted cursor) :
    ({ s with cursor := cursor } : Session).Invariant k :=
  ⟨hcursor, h.le, h.spans, h.awaits, h.lastReset, h.lastReset_eq⟩

theorem Invariant.read {α : Type} {k : KnownCommands} {program : CursorM α} (h : s.Invariant k)
    (hprogram : Preserves (CursorKnows k s.cursor.isInterrupted) program) :
    (s.read program).Invariant k := by
  exact h.of_cursor (hprogram.finalState h.cursor).own

theorem SpansUnacknowledged.expect {k : KnownCommands} (h : s.SpansUnacknowledged k)
    (hle : s.acknowledged ≤ s.issued) (cursor : TickCursorImpl) (lastReset : Option ℕ) :
    SpansUnacknowledged ⟨cursor, s.issued + 1, s.acknowledged, lastReset⟩ (k.expect s.issued) := by
  unfold SpansUnacknowledged at h ⊢
  have hopen : s.acknowledged ≠ s.issued + 1 := by omega
  simp only [if_neg hopen, KnownCommands.expect]
  refine ⟨?_, rfl⟩
  split at h
  · next hnone => rw [if_pos h.2, hnone]
  · next hsome =>
    have hlast : k.lastExpectedCommandId ≠ -1 := by omega
    rw [if_neg hlast, h.1]

/-- What a call gives the session. -/
theorem call_eq_some {program : (Request → Option ℤ) → CursorM Unit} {isReset : Bool}
    {k : KnownCommands} (hprogram : wp (program fun _ ↦ some s.issued)
      (fun _ ↦ CursorKnows k s.cursor.isInterrupted) (fun _ _ ↦ True) s.cursor)
    (hcall : s.call program isReset = some s') :
    ∃ cursor, CursorKnows k cursor.isInterrupted cursor ∧
      s' = ⟨cursor, s.issued + 1, s.acknowledged, if isReset then some s.issued else s.lastReset⟩ := by
  unfold call at hcall
  cases hrun : program (fun _ ↦ some s.issued) s.cursor with
  | error error cursor =>
    rw [hrun] at hcall
    cases hcall
  | ok value cursor =>
    rw [hrun] at hcall
    rw [wp_ok hrun] at hprogram
    exact ⟨cursor, hprogram.own, (Option.some.inj hcall).symm⟩

theorem Invariant.change {program : (Request → Option ℤ) → CursorM Unit} {k : KnownCommands}
    (h : s.Invariant k) (hcall : s.call program false = some s')
    (hprogram : wp (program fun _ ↦ some s.issued)
      (fun _ ↦ CursorKnows (k.expect s.issued) s.cursor.isInterrupted) (fun _ _ ↦ True) s.cursor) :
    ∃ k', s'.Invariant k' := by
  obtain ⟨cursor, hcursor, rfl⟩ := call_eq_some hprogram hcall
  refine ⟨k.expect s.issued, hcursor, Nat.le_succ_of_le h.le, h.spans.expect h.le _ _, h.awaits, ?_,
    h.lastReset_eq⟩
  intro cmdId hreset
  exact Nat.lt_succ_of_lt (h.lastReset cmdId hreset)

theorem Invariant.reset {program : (Request → Option ℤ) → CursorM Unit} {k : KnownCommands}
    (h : s.Invariant k) (hcall : s.call program true = some s')
    (hprogram : wp (program fun _ ↦ some s.issued)
      (fun _ ↦ CursorKnows (k.expectReset s.issued) s.cursor.isInterrupted) (fun _ _ ↦ True) s.cursor) :
    ∃ k', s'.Invariant k' := by
  obtain ⟨cursor, hcursor, rfl⟩ := call_eq_some hprogram hcall
  refine ⟨k.expectReset s.issued, hcursor, Nat.le_succ_of_le h.le, h.spans.expect h.le _ _, ?_, ?_, ?_⟩
  · simp only [KnownCommands.expectReset, true_iff]
    exact ⟨s.issued, rfl, h.le⟩
  · intro cmdId hreset
    cases hreset
    exact Nat.lt_succ_self _
  · intro cmdId hreset _
    cases hreset
    rfl

/-- The next command that the server acknowledges is the one the cursor expects. -/
theorem Invariant.acceptable {k : KnownCommands} (h : s.Invariant k) (hlt : s.acknowledged < s.issued) :
    k.Acceptable s.acknowledged := by
  have hspans := h.spans
  rw [SpansUnacknowledged, if_neg (Nat.ne_of_lt hlt)] at hspans
  constructor
  · exact hspans.1
  · intro hprogress
    obtain ⟨cmdId, hreset, hle⟩ := h.awaits.mp hprogress
    have hissued := h.lastReset cmdId hreset
    have heq := h.lastReset_eq cmdId hreset hle
    omega

theorem Invariant.acknowledge {k : KnownCommands} (h : s.Invariant k) (hlt : s.acknowledged < s.issued)
    {cursor : TickCursorImpl}
    (hcursor : CursorKnows (k.acknowledged s.acknowledged) cursor.isInterrupted cursor) :
    Invariant ⟨cursor, s.issued, s.acknowledged + 1, s.lastReset⟩ (k.acknowledged s.acknowledged) := by
  have hspans := h.spans
  have hacceptable := h.acceptable hlt
  rw [SpansUnacknowledged, if_neg (Nat.ne_of_lt hlt)] at hspans
  refine ⟨hcursor, hlt, ?_, ?_, h.lastReset, ?_⟩
  · simp only [SpansUnacknowledged, KnownCommands.acknowledged]
    split
    · next hlast =>
      have heq : k.firstExpectedCommandId = k.lastExpectedCommandId := by omega
      rw [if_pos heq, if_pos heq]
      exact ⟨rfl, rfl⟩
    · next hlast =>
      have hne : k.firstExpectedCommandId ≠ k.lastExpectedCommandId := by omega
      rw [if_neg hne, if_neg hne, hspans.1]
      exact ⟨rfl, hspans.2⟩
  · simp only [KnownCommands.acknowledged, AwaitsReset]
    constructor
    · intro hprogress
      split at hprogress
      · cases hprogress
      · next hother =>
        obtain ⟨cmdId, hreset, hle⟩ := h.awaits.mp hprogress
        have heq := h.lastReset_eq cmdId hreset hle
        have hne : (s.acknowledged : ℤ) ≠ k.lastResetCommandId := fun hsame ↦ hother ⟨hprogress, hsame⟩
        exact ⟨cmdId, hreset, by omega⟩
    · intro hawaits
      obtain ⟨cmdId, hreset, hle⟩ := hawaits
      have heq := h.lastReset_eq cmdId hreset (Nat.le_of_succ_le hle)
      have hne : ¬ (k.isResetInProgress = true ∧ (s.acknowledged : ℤ) = k.lastResetCommandId) := by omega
      rw [if_neg hne]
      exact h.awaits.mpr ⟨cmdId, hreset, Nat.le_of_succ_le hle⟩
  · intro cmdId hreset hle
    have heq := h.lastReset_eq cmdId hreset (Nat.le_of_succ_le hle)
    have hlater : s.acknowledged < cmdId := hle
    have hne : ¬ (k.isResetInProgress = true ∧ (s.acknowledged : ℤ) = k.lastResetCommandId) := by omega
    simp only [KnownCommands.acknowledged, if_neg hne]
    exact heq

theorem Invariant.step {k : KnownCommands} {next : SessionStep} (h : s.Invariant k)
    (hstep : s.step next = some s') : ∃ k', s'.Invariant k' := by
  cases next with
  | reset dt =>
    have hcall : s.call (Cursor.reset · dt) true = some s' := hstep
    exact h.reset hcall (reset_knows _ dt h.cursor)
  | modifyEntities entities action =>
    have hcall : s.call (Cursor.modifyEntities · entities action) false = some s' := hstep
    exact h.change hcall
      (changeSubscription_knows _ _ (fun _ ↦ filterEntities_knows entities action) h.cursor)
  | modifyTypes types action =>
    have hcall : s.call (Cursor.modifyTypes · types action) false = some s' := hstep
    exact h.change hcall
      (changeSubscription_knows _ _ (fun _ ↦ filterTypes_knows types action) h.cursor)
  | modifyStreams streams action =>
    have hcall : s.call (modifyStreamsLocked · streams action) false = some s' := hstep
    exact h.change hcall
      (changeSubscription_knows _ _ (fun _ ↦ filterStreams_knows streams action) h.cursor)
  | readEntity symbolId symbol =>
    cases hstep
    exact ⟨k, h.read (readEntity_knows symbolId symbol)⟩
  | readMessageType descriptorId descriptor =>
    cases hstep
    exact ⟨k, h.read (readMessageType_knows descriptorId descriptor)⟩
  | readStreamKey streamId streamKey =>
    cases hstep
    exact ⟨k, h.read (readStreamKey_knows streamId streamKey)⟩
  | readMessage entityId descriptorId streamId =>
    cases hstep
    exact ⟨k, h.read (filterMessage_knows entityId descriptorId streamId)⟩
  | readCommand =>
    simp only [Session.step] at hstep
    split at hstep
    · next hlt =>
      cases hstep
      have hread := readCommand_knows (h.acceptable hlt) h.cursor
      have hcursor := finalState_of_wp (wp_mono hread (fun _ _ h' ↦ h') fun _ _ ↦ False.elim)
      exact ⟨_, h.acknowledge hlt hcursor.own⟩
    · cases hstep
  | readTerminator =>
    cases hstep
    have hread := readTerminator_knows h.cursor
    have hcursor := finalState_of_wp (wp_mono hread (fun _ _ h' ↦ h'.1) fun _ _ ↦ False.elim)
    exact ⟨k, h.of_cursor hcursor.own⟩
  | interrupt =>
    cases hstep
    exact ⟨k, h.of_cursor ⟨h.cursor.wellFormed, h.cursor.commands, rfl⟩⟩

theorem Invariant.run {k : KnownCommands} {steps : List SessionStep} (h : s.Invariant k)
    (hrun : Session.run steps s = some s') : ∃ k', s'.Invariant k' := by
  induction steps generalizing s k with
  | nil =>
    cases hrun
    exact ⟨k, h⟩
  | cons next steps ih =>
    obtain ⟨middle, hstep, hrest⟩ := Option.bind_eq_some_iff.mp hrun
    obtain ⟨k', h'⟩ := h.step hstep
    exact ih h' hrest

/-- The cursor knows which commands are under way, and treats an acknowledgement or a terminator
accordingly. -/
structure Tracks (s : Session) : Prop where
  le : s.acknowledged ≤ s.issued
  spans : s.SpansUnacknowledged s.cursor.subState.latest.commands
  ordered : s.cursor.subState.latest.firstExpectedCommandId ≤
    s.cursor.subState.latest.lastExpectedCommandId
  reset : s.cursor.subState.latest.isResetInProgress = true ↔ s.AwaitsReset
  acknowledges : s.acknowledged < s.issued → returns (Cursor.readCommand s.acknowledged) s.cursor = true
  terminates : wp Cursor.readTerminator
    (fun goesOn c ↦ (goesOn = false ↔ s.acknowledged = s.issued ∨ s.cursor.isInterrupted = true) ∧
      c.state = if goesOn then s.cursor.state else .ended)
    (fun _ _ ↦ False) s.cursor

theorem SpansUnacknowledged.ordered {k : KnownCommands} (h : s.SpansUnacknowledged k)
    (hle : s.acknowledged ≤ s.issued) : k.firstExpectedCommandId ≤ k.lastExpectedCommandId := by
  unfold SpansUnacknowledged at h
  split at h <;> omega

theorem SpansUnacknowledged.last_eq_iff {k : KnownCommands} (h : s.SpansUnacknowledged k)
    (hle : s.acknowledged ≤ s.issued) :
    k.lastExpectedCommandId = -1 ↔ s.acknowledged = s.issued := by
  unfold SpansUnacknowledged at h
  split at h <;> omega

theorem Invariant.tracks {k : KnownCommands} (h : s.Invariant k) : s.Tracks := by
  have hcommands := h.cursor.commands
  subst hcommands
  refine ⟨h.le, h.spans, h.spans.ordered h.le, h.awaits, ?_, ?_⟩
  · intro hlt
    obtain ⟨value, c, hrun, -⟩ := exists_ok_of_wp (readCommand_knows (h.acceptable hlt) h.cursor)
    rw [returns, hrun]
  · apply wp_mono (readTerminator_knows h.cursor)
    · intro goesOn c hends
      refine ⟨?_, hends.2.2⟩
      rw [← h.spans.last_eq_iff h.le, ← Bool.not_eq_true, hends.2.1, not_and_or, not_not,
        Bool.not_eq_false]
    · exact fun _ _ ↦ id

/-- However clients and the reader take turns, the commands of a session are tracked. -/
theorem commands_tracked {steps : List SessionStep} (hopened : s.Opened)
    (hrun : Session.run steps s = some s') : s'.Tracks := by
  obtain ⟨k, h⟩ := hopened.invariant.run hrun
  exact h.tracks

/-- A cursor as `select` opens it, and a server that numbers its commands from 7 on. -/
def opened : Session where
  cursor := openedCursor
  issued := 7
  acknowledged := 7
  lastReset := none

theorem opened_opened : opened.Opened :=
  ⟨CopyOnWrite.wellFormed_ofValue _, rfl, rfl, rfl, rfl, rfl⟩

/-- Two resets overlap, and the reader takes over in between. -/
def overlappingResets : List SessionStep :=
  [.reset 0, .modifyEntities (some [[65]]) .remove, .readEntity 0 [65], .readCommand, .reset 5,
    .readCommand, .readTerminator]

theorem commands_tracked_overlapping :
    ∃ s, Session.run overlappingResets opened = some s ∧ s.Tracks ∧
      s.cursor.subState.latest.commands = ⟨true, 9, 9, 9⟩ := by
  have hcommands : (Session.run overlappingResets opened).map (·.cursor.subState.latest.commands) =
      some ⟨true, 9, 9, 9⟩ := by decide +kernel
  obtain ⟨s, hrun, hlast⟩ := Option.map_eq_some_iff.mp hcommands
  exact ⟨s, hrun, commands_tracked opened_opened hrun, hlast⟩

end Session

end DxApi.Cursor
