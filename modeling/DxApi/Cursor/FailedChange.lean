import DxApi.Cursor.Filter

/-!
# Changes of a subscription that fail

A change of the subscription writes its filters to the shadow state and then asks the server. When
the request fails nothing is taken back: the reader takes the filters over all the same, and a reset
that never began keeps every message from being delivered.
-/

namespace DxApi.Cursor

open Exec

/-! ## What the reader can tell apart -/

/-- Both filters say the same, and will say the same of what is registered later. -/
structure SameFilter {nmax : ℕ} (f f' : NameFilter nmax) : Prop where
  defaultValue : f'.isSkipped.defaultValue = f.isSkipped.defaultValue
  get : ∀ i, f'.isSkipped.get i = f.isSkipped.get i
  isUnregisteredSkipped : f'.isUnregisteredSkipped = f.isUnregisteredSkipped

/-- The states differ in the streams at most: no message is skipped because of its stream. -/
structure SameSubscription (s s' : SubscriptionState) : Prop where
  isResetInProgress : s'.isResetInProgress = s.isResetInProgress
  first : s'.firstExpectedCommandId = s.firstExpectedCommandId
  last : s'.lastExpectedCommandId = s.lastExpectedCommandId
  lastReset : s'.lastResetCommandId = s.lastResetCommandId
  tables : s'.tables = s.tables
  symbols : SameFilter s.symbols s'.symbols
  types : SameFilter s.types s'.types

theorem SameFilter.refl {nmax : ℕ} (f : NameFilter nmax) : SameFilter f f := ⟨rfl, fun _ ↦ rfl, rfl⟩

theorem SameSubscription.refl (s : SubscriptionState) : SameSubscription s s :=
  ⟨rfl, rfl, rfl, rfl, rfl, .refl _, .refl _⟩

theorem SameFilter.symm {nmax : ℕ} {f f' : NameFilter nmax} (h : SameFilter f f') : SameFilter f' f :=
  ⟨h.defaultValue.symm, fun i ↦ (h.get i).symm, h.isUnregisteredSkipped.symm⟩

theorem SameFilter.trans {nmax : ℕ} {f g k : NameFilter nmax} (h : SameFilter f g) (h' : SameFilter g k) :
    SameFilter f k :=
  ⟨h'.defaultValue.trans h.defaultValue, fun i ↦ (h'.get i).trans (h.get i),
    h'.isUnregisteredSkipped.trans h.isUnregisteredSkipped⟩

theorem SameSubscription.symm {s s' : SubscriptionState} (h : SameSubscription s s') :
    SameSubscription s' s :=
  ⟨h.isResetInProgress.symm, h.first.symm, h.last.symm, h.lastReset.symm, h.tables.symm, h.symbols.symm,
    h.types.symm⟩

theorem SameSubscription.trans {s t u : SubscriptionState} (h : SameSubscription s t)
    (h' : SameSubscription t u) : SameSubscription s u :=
  ⟨h'.isResetInProgress.trans h.isResetInProgress, h'.first.trans h.first, h'.last.trans h.last,
    h'.lastReset.trans h.lastReset, h'.tables.trans h.tables, h.symbols.trans h'.symbols,
    h.types.trans h'.types⟩

theorem set_eq_none_iff {nmax : ℕ} {lut : AbstractLUT Bool nmax} {index : ℕ} {value : Bool} :
    lut.set index value = none ↔ ¬ index < nmax := by
  rw [← AbstractLUT.isSome_set_iff, Option.not_isSome_iff_eq_none]

/-- Setting the same number in both filters keeps them the same. -/
theorem SameFilter.set {nmax : ℕ} {f f' : NameFilter nmax} (h : SameFilter f f') (index : ℕ)
    (value : Bool) (entries : Name → Option Bool) :
    (f.isSkipped.set index value = none ∧ f'.isSkipped.set index value = none) ∨
      ∃ lut lut', f.isSkipped.set index value = some lut ∧ f'.isSkipped.set index value = some lut' ∧
        SameFilter ⟨lut, entries⟩ ⟨lut', entries⟩ := by
  cases hset : f.isSkipped.set index value with
  | none =>
    left
    exact ⟨rfl, set_eq_none_iff.mpr (set_eq_none_iff.mp hset)⟩
  | some lut =>
    right
    have hfits : index < nmax := AbstractLUT.isSome_set_iff.mp (Option.isSome_of_eq_some hset)
    have hsome : (f'.isSkipped.set index value).isSome := AbstractLUT.isSome_set_iff.mpr hfits
    obtain ⟨lut', hset'⟩ := Option.isSome_iff_exists.mp hsome
    refine ⟨lut, lut', rfl, hset', ?_, ?_, rfl⟩
    · rw [AbstractLUT.defaultValue_set hset', AbstractLUT.defaultValue_set hset]
      exact h.defaultValue
    · intro i
      rw [AbstractLUT.get_set hset', AbstractLUT.get_set hset]
      split
      · rfl
      · exact h.get i

theorem SameFilter.settle {nmax : ℕ} {f f' : NameFilter nmax} (h : SameFilter f f') (newId : ℕ)
    (name : Name) :
    (f.settle newId name = none ∧ f'.settle newId name = none) ∨
      ∃ g g', f.settle newId name = some g ∧ f'.settle newId name = some g' ∧ SameFilter g g' := by
  unfold NameFilter.settle
  rw [h.isUnregisteredSkipped]
  cases f.isUnregisteredSkipped name with
  | none => exact .inr ⟨f, f', rfl, rfl, h⟩
  | some isSkipped =>
    rcases h.set newId isSkipped (Function.update f.isUnregisteredSkipped name none) with
      ⟨hnone, hnone'⟩ | ⟨lut, lut', hset, hset', hsame⟩
    · left
      simp [hnone, hnone']
    · right
      simp only [hset, hset', Option.map_some]
      exact ⟨_, _, rfl, rfl, hsame⟩

variable {s s' : SubscriptionState}

theorem agree_orOutOfRange {f f' : SubscriptionState → Option SubscriptionState}
    (h : SameSubscription s s')
    (hf : (f s = none ∧ f' s' = none) ∨
      ∃ t t', f s = some t ∧ f' s' = some t' ∧ SameSubscription t t') :
    Agree SameSubscription (orOutOfRange f) s (orOutOfRange f') s' := by
  rw [orOutOfRange, orOutOfRange, agree_get]
  rcases hf with ⟨hnone, hnone'⟩ | ⟨t, t', hsome, hsome', hsame⟩
  · rw [hnone, hnone']
    exact agree_throw _ h
  · rw [hsome, hsome']
    exact agree_set hsame

theorem registerNewInstrument_agree (newId : ℕ) (instr : Name) (h : SameSubscription s s') :
    Agree SameSubscription (registerNewInstrument newId instr) s (registerNewInstrument newId instr) s' := by
  rw [registerNewInstrument, agree_get, h.tables]
  apply Agree.ite Iff.rfl
  · exact fun _ ↦ agree_throw _ h
  intro _
  cases s.tables.registerInstrument instr with
  | none => exact agree_throw _ h
  | some tables =>
    have hregistered : SameSubscription { s with tables := tables } { s' with tables := tables } :=
      { h with tables := rfl }
    apply Agree.bind (agree_set hregistered)
    intro _ t t' ht
    apply agree_orOutOfRange ht
    rcases ht.symbols.settle newId instr with ⟨hnone, hnone'⟩ | ⟨g, g', hsome, hsome', hsame⟩
    · left
      rw [hnone, hnone']
      exact ⟨rfl, rfl⟩
    · right
      rw [hsome, hsome']
      exact ⟨_, _, rfl, rfl, { ht with symbols := hsame }⟩

theorem newTypeSkipped_same {f f' : NameFilter 0x100} (h : SameFilter f f') (typeName : Name)
    (sibling : Option ℕ) : newTypeSkipped f' typeName sibling = newTypeSkipped f typeName sibling := by
  unfold newTypeSkipped
  rw [h.isUnregisteredSkipped]
  cases f.isUnregisteredSkipped typeName with
  | some isSkipped => rfl
  | none =>
    cases sibling with
    | some sibling => exact h.get sibling
    | none => exact h.defaultValue

theorem registerNewMessageType_agree (newId : ℕ) (descriptor : Option (Name × Name))
    (h : SameSubscription s s') :
    Agree SameSubscription (registerNewMessageType newId descriptor) s
      (registerNewMessageType newId descriptor) s' := by
  rw [registerNewMessageType, agree_get, h.tables]
  apply Agree.ite Iff.rfl
  · exact fun _ ↦ agree_throw _ h
  intro _
  cases descriptor with
  | none => exact agree_throw _ h
  | some named =>
    obtain ⟨typeName, guid⟩ := named
    dsimp only
    cases s.tables.registerMessageDescriptor typeName guid with
    | none => exact agree_throw _ h
    | some tables =>
      dsimp only
      rw [newTypeSkipped_same h.types, h.types.isUnregisteredSkipped]
      apply Agree.bind
      · apply agree_set
        exact { h with
          tables := rfl
          types := ⟨h.types.defaultValue, h.types.get, rfl⟩ }
      intro _ t t' ht
      apply agree_orOutOfRange ht
      rcases ht.types.set newId (newTypeSkipped s.types typeName (s.tables.findMsgDescByType typeName))
          t.types.isUnregisteredSkipped with ⟨hnone, hnone'⟩ | ⟨lut, lut', hsome, hsome', hsame⟩
      · left
        rw [hnone, hnone']
        exact ⟨rfl, rfl⟩
      · right
        rw [hsome, hsome']
        refine ⟨_, _, rfl, rfl, { ht with types := ?_ }⟩
        exact ⟨hsame.defaultValue, hsame.get, ht.types.isUnregisteredSkipped⟩

/-- The number of a stream is a byte other than 255, so that it always fits in the table. -/
theorem registerNewStream_agree {newId : ℕ} (hid : newId < 0x100) (streamKey : Name)
    (h : SameSubscription s s') :
    Agree SameSubscription (registerNewStream newId streamKey) s (registerNewStream newId streamKey) s' := by
  rw [registerNewStream, agree_get, h.tables]
  apply Agree.ite Iff.rfl
  · exact fun _ ↦ agree_throw _ h
  intro _
  apply Agree.bind
  · apply agree_set
    exact { h with tables := rfl }
  intro _ t t' ht
  have hsettles : ∀ f : NameFilter 0x100, ∃ g, f.settle newId streamKey = some g := by
    intro f
    unfold NameFilter.settle
    cases f.isUnregisteredSkipped streamKey with
    | none => exact ⟨f, rfl⟩
    | some isSkipped =>
      have hsome : (f.isSkipped.set newId isSkipped).isSome := AbstractLUT.isSome_set_iff.mpr hid
      obtain ⟨lut, hset⟩ := Option.isSome_iff_exists.mp hsome
      simp only [hset, Option.map_some]
      exact ⟨_, rfl⟩
  apply agree_orOutOfRange ht
  right
  obtain ⟨g, hg⟩ := hsettles t.streams
  obtain ⟨g', hg'⟩ := hsettles t'.streams
  rw [hg, hg']
  exact ⟨_, _, rfl, rfl, { ht with }⟩

theorem acknowledge_agree (cmdId : ℤ) (h : SameSubscription s s') :
    Agree SameSubscription (acknowledge cmdId) s (acknowledge cmdId) s' := by
  rw [acknowledge, agree_get, h.first, h.last, h.lastReset, h.isResetInProgress]
  have hcount : ∀ t t', SameSubscription t t' → Agree SameSubscription
      (modify fun t : SubscriptionState ↦ { t with
        firstExpectedCommandId :=
          if s.firstExpectedCommandId = s.lastExpectedCommandId then -1 else t.firstExpectedCommandId + 1
        lastExpectedCommandId :=
          if s.firstExpectedCommandId = s.lastExpectedCommandId then -1 else t.lastExpectedCommandId } :
        SubscriptionM PUnit) t
      (modify fun t : SubscriptionState ↦ { t with
        firstExpectedCommandId :=
          if s.firstExpectedCommandId = s.lastExpectedCommandId then -1 else t.firstExpectedCommandId + 1
        lastExpectedCommandId :=
          if s.firstExpectedCommandId = s.lastExpectedCommandId then -1 else t.lastExpectedCommandId }) t' := by
    intro t t' ht
    apply agree_modify
    exact { ht with first := by rw [ht.first], last := by rw [ht.last] }
  apply Agree.ite Iff.rfl
  · exact fun _ ↦ agree_throw _ h
  intro _
  apply Agree.ite Iff.rfl
  · intro _
    apply Agree.ite Iff.rfl
    · intro _
      apply Agree.bind
      · apply agree_set
        exact ⟨rfl, rfl, rfl, rfl, h.tables, h.symbols, h.types⟩
      · exact fun _ ↦ hcount
    · intro _
      apply Agree.ite Iff.rfl
      · intro _
        apply Agree.bind (agree_throw _ h)
        exact fun _ ↦ hcount
      · exact fun _ ↦ hcount s s' h
  · exact fun _ ↦ hcount s s' h

/-! ## The rest of a stream -/

/-- A record of the stream, or a message in a block. -/
inductive StreamRecord
  | entity (symbolId : ℕ) (symbol : Name)
  | messageType (descriptorId : ℕ) (descriptor : Option (Name × Name))
  | stream (streamId : Fin 255) (streamKey : Name)
  | message (entityId descriptorId : ℕ) (streamId : ℤ)
  | command (cmdId : ℤ)
  | terminator

/-- What the reader does with a record. -/
inductive Outcome
  | processed
  | accepted
  | skipped
  | ended
  deriving DecidableEq, Repr

def StreamRecord.read : StreamRecord → CursorM Outcome
  | .entity symbolId symbol => do
    readEntity symbolId symbol
    return .processed
  | .messageType descriptorId descriptor => do
    readMessageType descriptorId descriptor
    return .processed
  | .stream streamId streamKey => do
    readStreamKey streamId streamKey
    return .processed
  | .message entityId descriptorId streamId => do
    let isAccepted ← filterMessage entityId descriptorId streamId
    return if isAccepted then .accepted else .skipped
  | .command cmdId => do
    readCommand cmdId
    return .processed
  | .terminator => do
    let goesOn ← readTerminator
    return if goesOn then .processed else .ended

/-- What is done with the records, up to the end of the cursor or an error. -/
def delivery : List StreamRecord → TickCursorImpl → List (Except CursorError Outcome)
  | [], _ => []
  | record :: records, c =>
    match record.read c with
    | .ok outcome c' =>
      if outcome = .ended then [.ok .ended] else .ok outcome :: delivery records c'
    | .error error _ => [.error error]

/-- The cursors differ in what the reader cannot tell apart. -/
structure SameReading (c c' : TickCursorImpl) : Prop where
  wellFormed : c.subState.WellFormed
  wellFormed' : c'.subState.WellFormed
  isInterrupted : c'.isInterrupted = c.isInterrupted
  isSystemMessage : c'.isSystemMessage = c.isSystemMessage
  latest : SameSubscription c.subState.latest c'.subState.latest

variable {c c' : TickCursorImpl}

theorem agree_synchronized {program : SubscriptionM Unit} (h : SameReading c c')
    (hprogram : Agree SameSubscription program c.subState.latest program c'.subState.latest) :
    Agree SameReading (do synchronizeCheck; onMain program) c (do synchronizeCheck; onMain program) c' := by
  have hmain : Agree SameSubscription program c.subState.takeOver.current program
      c'.subState.takeOver.current := by
    rwa [CopyOnWrite.current_takeOver h.wellFormed, CopyOnWrite.current_takeOver h.wellFormed']
  have htaken : Agree SameReading (onMain program) { c with subState := c.subState.takeOver }
      (onMain program) { c' with subState := c'.subState.takeOver } := by
    rw [onMain]
    apply Agree.zoom
    · exact hmain
    intro r r' hr
    constructor
    · exact CopyOnWrite.wellFormed_writeMain (CopyOnWrite.wellFormed_takeOver h.wellFormed)
    · exact CopyOnWrite.wellFormed_writeMain (CopyOnWrite.wellFormed_takeOver h.wellFormed')
    · exact h.isInterrupted
    · exact h.isSystemMessage
    · rw [CopyOnWrite.latest_writeMain_takeOver h.wellFormed,
        CopyOnWrite.latest_writeMain_takeOver h.wellFormed']
      exact hr
  exact htaken

/-- After taking over, the reader looks at the latest state. -/
theorem takeOverInBlock_eq (hc : c.subState.WellFormed) :
    ∃ d, takeOverInBlock c = .ok () d ∧ SameReading c d ∧ d.subState.current = d.subState.latest := by
  have hspec : wp takeOverInBlock
      (fun _ d ↦ SameReading c d ∧ d.subState.current = d.subState.latest) (fun _ _ ↦ False) c := by
    have hwell := CopyOnWrite.wellFormed_takeOver hc
    have hlatest := CopyOnWrite.latest_takeOver c.subState
    have hcurrent := CopyOnWrite.current_takeOver hc
    simp only [takeOverInBlock, wp_bind, wp_get, wp_ite, wp_modify, wp_pure, onMain, wp_zoom]
    refine ⟨fun _ ↦ ⟨fun _ ↦ ?_, fun _ ↦ ?_⟩, fun hupdated ↦ ?_⟩
    · have hwritten := CopyOnWrite.latest_writeMain_takeOver (f := fun _ : SubscriptionState ↦
        { c.subState.takeOver.current with readingRestarted := false }) hc
      refine ⟨⟨hc, CopyOnWrite.wellFormed_writeMain hwell, rfl, rfl, ?_⟩, ?_⟩
      · rw [hwritten, hcurrent]
        exact ⟨rfl, rfl, rfl, rfl, rfl, .refl _, .refl _⟩
      · rw [hwritten]
        exact Function.update_self _ _ _
    · refine ⟨⟨hc, hwell, rfl, rfl, ?_⟩, hcurrent.trans hlatest.symm⟩
      dsimp only
      rw [hlatest]
      exact .refl _
    · have hsame : c.subState.takeOver = c.subState := by
        rw [CopyOnWrite.takeOver, if_neg hupdated]
      rw [hsame] at hcurrent
      exact ⟨⟨hc, hc, rfl, rfl, .refl _⟩, hcurrent⟩
  obtain ⟨value, d, hrun, h⟩ := exists_ok_of_wp hspec
  exact ⟨d, hrun, h⟩

theorem SameReading.symm (h : SameReading c c') : SameReading c' c :=
  ⟨h.wellFormed', h.wellFormed, h.isInterrupted.symm, h.isSystemMessage.symm, h.latest.symm⟩

theorem SameReading.trans {d : TickCursorImpl} (h : SameReading c c') (h' : SameReading c' d) :
    SameReading c d :=
  ⟨h.wellFormed, h'.wellFormed', h'.isInterrupted.trans h.isInterrupted,
    h'.isSystemMessage.trans h.isSystemMessage, h.latest.trans h'.latest⟩

theorem SameReading.withState (h : SameReading c c') (state : CursorState) :
    SameReading { c with state := state } { c' with state := state } :=
  ⟨h.wellFormed, h.wellFormed', h.isInterrupted, h.isSystemMessage, h.latest⟩

theorem filterMessage_agree (entityId descriptorId : ℕ) (streamId : ℤ) (h : SameReading c c') :
    Agree SameReading (filterMessage entityId descriptorId streamId) c
      (filterMessage entityId descriptorId streamId) c' := by
  obtain ⟨d, hrun, hd, hcurrent⟩ := takeOverInBlock_eq h.wellFormed
  obtain ⟨d', hrun', hd', hcurrent'⟩ := takeOverInBlock_eq h.wellFormed'
  have hsame : SameReading d d' := (hd.symm.trans h).trans hd'
  have hlatest := hsame.latest
  have hskipped : isMessageSkipped d'.isSystemMessage d'.subState.latest entityId descriptorId =
      isMessageSkipped d.isSystemMessage d.subState.latest entityId descriptorId := by
    simp only [isMessageSkipped, hsame.isSystemMessage, hlatest.isResetInProgress, hlatest.types.get,
      hlatest.symbols.get]
  rw [filterMessage]
  apply Agree.bind_ok hrun hrun'
  rw [agree_get]
  dsimp only
  rw [hcurrent, hcurrent', hlatest.tables, hskipped]
  apply Agree.ite Iff.rfl
  · exact fun _ ↦ agree_throw _ hsame
  intro _
  apply Agree.ite Iff.rfl
  · exact fun _ ↦ agree_throw _ hsame
  intro _
  apply Agree.ite Iff.rfl
  · exact fun _ ↦ agree_throw _ hsame
  intro _
  apply Agree.ite Iff.rfl
  · exact fun _ ↦ agree_pure false hsame
  intro _
  apply Agree.bind (agree_set (hsame.withState .reading))
  exact fun _ _ _ h ↦ agree_pure true h

theorem readTerminator_agree (h : SameReading c c') : Agree SameReading readTerminator c readTerminator c' := by
  have htaken : SameReading { c with subState := c.subState.takeOver }
      { c' with subState := c'.subState.takeOver } := by
    constructor
    · exact CopyOnWrite.wellFormed_takeOver h.wellFormed
    · exact CopyOnWrite.wellFormed_takeOver h.wellFormed'
    · exact h.isInterrupted
    · exact h.isSystemMessage
    · rw [CopyOnWrite.latest_takeOver, CopyOnWrite.latest_takeOver]
      exact h.latest
  have hexecuting : c'.subState.takeOver.current.isExecutingSubscriptions =
      c.subState.takeOver.current.isExecutingSubscriptions := by
    rw [CopyOnWrite.current_takeOver h.wellFormed, CopyOnWrite.current_takeOver h.wellFormed']
    rw [SubscriptionState.isExecutingSubscriptions, SubscriptionState.isExecutingSubscriptions, h.latest.last]
  have hinterrupted := h.isInterrupted
  rw [readTerminator, synchronizeCheck]
  apply Agree.bind_ok rfl rfl
  rw [agree_get]
  apply Agree.ite
  · rw [hexecuting, hinterrupted]
  · exact fun _ ↦ agree_pure true htaken
  intro _
  apply Agree.bind (agree_set (htaken.withState .ended))
  exact fun _ _ _ h ↦ agree_pure false h

theorem readMessageType_agree (descriptorId : ℕ) (descriptor : Option (Name × Name))
    (h : SameReading c c') :
    Agree SameReading (readMessageType descriptorId descriptor) c
      (readMessageType descriptorId descriptor) c' := by
  have hregister := agree_synchronized h (registerNewMessageType_agree descriptorId descriptor h.latest)
  apply Agree.bind hregister
  intro _ d d' hd
  cases descriptor with
  | none => exact agree_pure () hd
  | some named =>
    dsimp only
    apply Agree.ite Iff.rfl
    · intro _
      apply agree_modify
      exact { hd with isSystemMessage := by rw [hd.isSystemMessage] }
    · exact fun _ ↦ agree_pure () hd

/-- One record: the reader does the same with it, and goes on in the same way. -/
theorem StreamRecord.read_agree (record : StreamRecord) (h : SameReading c c') :
    Agree SameReading record.read c record.read c' := by
  cases record with
  | entity symbolId symbol =>
    apply Agree.bind (agree_synchronized h (registerNewInstrument_agree symbolId symbol h.latest))
    exact fun _ _ _ h' ↦ agree_pure _ h'
  | messageType descriptorId descriptor =>
    apply Agree.bind (readMessageType_agree descriptorId descriptor h)
    exact fun _ _ _ h' ↦ agree_pure _ h'
  | stream streamId streamKey =>
    have hid : (streamId : ℕ) < 0x100 := Nat.lt_trans streamId.isLt (by decide)
    apply Agree.bind (agree_synchronized h (registerNewStream_agree hid streamKey h.latest))
    exact fun _ _ _ h' ↦ agree_pure _ h'
  | message entityId descriptorId streamId =>
    apply Agree.bind (filterMessage_agree entityId descriptorId streamId h)
    exact fun _ _ _ h' ↦ agree_pure _ h'
  | command cmdId =>
    apply Agree.bind (agree_synchronized h (acknowledge_agree cmdId h.latest))
    exact fun _ _ _ h' ↦ agree_pure _ h'
  | terminator =>
    apply Agree.bind (readTerminator_agree h)
    exact fun _ _ _ h' ↦ agree_pure _ h'

/-- So the whole rest of the stream is delivered in the same way. -/
theorem SameReading.delivery_eq (records : List StreamRecord) (h : SameReading c c') :
    delivery records c' = delivery records c := by
  induction records generalizing c c' with
  | nil => rfl
  | cons record records ih =>
    have hread := record.read_agree h
    unfold Agree at hread
    unfold delivery
    cases hleft : record.read c with
    | ok outcome d =>
      cases hright : record.read c' with
      | ok outcome' d' =>
        rw [hleft, hright] at hread
        rw [← hread.1]
        dsimp only
        rw [ih hread.2]
      | error error' d' =>
        rw [hleft, hright] at hread
        exact hread.elim
    | error error d =>
      cases hright : record.read c' with
      | ok outcome' d' =>
        rw [hleft, hright] at hread
        exact hread.elim
      | error error' d' =>
        rw [hleft, hright] at hread
        rw [← hread.1]

/-! ## What a change does to its filter -/

/-- Numbers that are set together with the number of a name. -/
structure SetsNumbers {nmax : ℕ} (find : Name → Option ℕ) (numbers : Name → ℕ → Prop)
    (setRegistered : AbstractLUT Bool nmax → ℕ → Bool → Option (AbstractLUT Bool nmax)) : Prop where
  found : ∀ name i, numbers name i → find name ≠ none
  defaultValue_eq : ∀ lut lut' name id value, find name = some id →
    setRegistered lut id value = some lut' → lut'.defaultValue = lut.defaultValue
  get_eq : ∀ lut lut' name id value, find name = some id → setRegistered lut id value = some lut' →
    ∀ i, (numbers name i → lut'.get i = value) ∧ (¬ numbers name i → lut'.get i = lut.get i)

theorem SetsSameName.setsNumbers {nmax : ℕ} {find : Name → Option ℕ} {named : ℕ → Option Name}
    {setRegistered : AbstractLUT Bool nmax → ℕ → Bool → Option (AbstractLUT Bool nmax)}
    (h : SetsSameName find named setRegistered) :
    SetsNumbers find (fun name i ↦ named i = some name) setRegistered where
  found := h.complete
  defaultValue_eq := h.defaultValue_eq
  get_eq := by
    intro lut lut' name id value hfind hset i
    have hget := h.get_eq lut lut' name id value hfind hset i
    exact ⟨fun hname ↦ hget.trans (if_pos hname), fun hname ↦ hget.trans (if_neg hname)⟩

theorem setsNumbers_streams (tables : SymbolTranslator) :
    SetsNumbers tables.findStreamId (fun name i ↦ tables.findStreamId name = some i)
      (AbstractLUT.set : AbstractLUT Bool 0x100 → ℕ → Bool → Option (AbstractLUT Bool 0x100)) where
  found := fun _ _ hfind ↦ by rw [hfind]; exact Option.some_ne_none _
  defaultValue_eq := fun _ _ _ _ _ _ ↦ AbstractLUT.defaultValue_set
  get_eq := by
    intro lut lut' name id value hfind hset i
    have hget := AbstractLUT.get_set hset i
    constructor
    · intro hi
      rw [hfind, Option.some.injEq] at hi
      exact hget.trans (if_pos hi.symm)
    · intro hi
      apply hget.trans (if_neg _)
      rintro rfl
      exact hi hfind

/-- The filter after the names were mentioned. -/
structure NameFilter.Mentioned {nmax : ℕ} (find : Name → Option ℕ) (numbers : Name → ℕ → Prop)
    (names : List Name) (isRemoving : Bool) (filter filter' : NameFilter nmax) : Prop where
  defaultValue : filter'.isSkipped.defaultValue = filter.isSkipped.defaultValue
  registered : ∀ name ∈ names, ∀ i, numbers name i → filter'.isSkipped.get i = isRemoving
  others : ∀ i, (∀ name ∈ names, ¬ numbers name i) → filter'.isSkipped.get i = filter.isSkipped.get i
  unregistered : ∀ name, name ∈ names ∧ find name = none ∧ filter.isSkipped.defaultValue ≠ isRemoving →
    filter'.isUnregisteredSkipped name = some isRemoving
  otherNames : ∀ name, ¬ (name ∈ names ∧ find name = none ∧ filter.isSkipped.defaultValue ≠ isRemoving) →
    filter'.isUnregisteredSkipped name = filter.isUnregisteredSkipped name

section

variable {nmax : ℕ} {find : Name → Option ℕ} {numbers : Name → ℕ → Prop} {isRemoving : Bool}
  {setRegistered : AbstractLUT Bool nmax → ℕ → Bool → Option (AbstractLUT Bool nmax)}
  {filter filter' middle : NameFilter nmax} {names : List Name} {name : Name}

theorem NameFilter.Mentioned.refl (filter : NameFilter nmax) :
    Mentioned find numbers [] isRemoving filter filter :=
  ⟨rfl, by simp, by simp, by simp, by simp⟩

theorem NameFilter.Mentioned.cons (hfirst : Mentioned find numbers [name] isRemoving filter middle)
    (hrest : Mentioned find numbers names isRemoving middle filter') :
    Mentioned find numbers (name :: names) isRemoving filter filter' := by
  have hdefault := hfirst.defaultValue
  constructor
  · exact hrest.defaultValue.trans hdefault
  · intro other hother i hi
    by_cases hlater : ∃ later ∈ names, numbers later i
    · obtain ⟨later, hmem, hnumber⟩ := hlater
      exact hrest.registered later hmem i hnumber
    · have hkept := hrest.others i fun later hmem hnumber ↦ hlater ⟨later, hmem, hnumber⟩
      rcases List.mem_cons.mp hother with rfl | hmem
      · exact hkept.trans (hfirst.registered other (List.mem_singleton_self _) i hi)
      · exact absurd ⟨other, hmem, hi⟩ hlater
  · intro i hi
    have hkept := hrest.others i fun later hmem ↦ hi later (List.mem_cons_of_mem _ hmem)
    apply hkept.trans (hfirst.others i _)
    intro other hother
    rw [List.mem_singleton.mp hother]
    exact hi name (List.mem_cons_self ..)
  · intro other hother
    obtain ⟨hmem, hfind, hdiffers⟩ := hother
    by_cases hlater : other ∈ names
    · exact hrest.unregistered other ⟨hlater, hfind, by rwa [hdefault]⟩
    · rw [hrest.otherNames other fun h ↦ hlater h.1]
      apply hfirst.unregistered other
      rcases List.mem_cons.mp hmem with rfl | hmem
      · exact ⟨List.mem_singleton_self _, hfind, hdiffers⟩
      · exact absurd hmem hlater
  · intro other hother
    rw [hrest.otherNames other, hfirst.otherNames other]
    · intro h
      rw [List.mem_singleton] at h
      exact hother ⟨by rw [h.1]; exact List.mem_cons_self .., h.2⟩
    · intro h
      rw [hdefault] at h
      exact hother ⟨List.mem_cons_of_mem _ h.1, h.2⟩

theorem NameFilter.Mentioned.nil_trans {isOther : Bool}
    (h : Mentioned find numbers [] isOther filter middle)
    (h' : Mentioned find numbers names isRemoving middle filter') :
    Mentioned find numbers names isRemoving filter filter' := by
  have hdefault := h.defaultValue
  constructor
  · exact h'.defaultValue.trans hdefault
  · exact h'.registered
  · intro i hi
    exact (h'.others i hi).trans (h.others i fun _ hname ↦ absurd hname List.not_mem_nil)
  · intro name hname
    exact h'.unregistered name (by rwa [hdefault])
  · intro name hname
    rw [← hdefault] at hname
    exact (h'.otherNames name hname).trans (h.otherNames name fun hnone ↦ absurd hnone.1 List.not_mem_nil)

/-- One name. -/
theorem NameFilter.mentioned_change (hset : SetsNumbers find numbers setRegistered)
    (hchange : filter.change find setRegistered isRemoving name = some filter') :
    Mentioned find numbers [name] isRemoving filter filter' := by
  rcases NameFilter.change_cases hchange with ⟨id, lut, hfind, hlut, rfl⟩ | ⟨hfind, hdefault, rfl⟩ |
    ⟨hfind, hdefault, rfl⟩
  · have hget := hset.get_eq _ _ name id _ hfind hlut
    constructor
    · exact hset.defaultValue_eq _ _ name id _ hfind hlut
    · intro other hother i
      rw [List.mem_singleton.mp hother]
      exact (hget i).1
    · intro i hi
      exact (hget i).2 (hi name (List.mem_singleton_self _))
    · intro other hother
      rw [List.mem_singleton.mp hother.1, hfind] at hother
      cases hother.2.1
    · exact fun _ _ ↦ rfl
  · constructor
    · rfl
    · intro other hother i hi
      rw [List.mem_singleton.mp hother] at hi
      exact absurd hfind (hset.found name i hi)
    · exact fun _ _ ↦ rfl
    · intro other hother
      rw [List.mem_singleton.mp hother.1]
      exact Function.update_self _ _ _
    · intro other hother
      apply Function.update_of_ne
      rintro rfl
      exact hother ⟨List.mem_singleton_self _, hfind, hdefault⟩
  · constructor
    · rfl
    · intro other hother i hi
      rw [List.mem_singleton.mp hother] at hi
      exact absurd hfind (hset.found name i hi)
    · exact fun _ _ ↦ rfl
    · exact fun other hother ↦ absurd hdefault hother.2.2
    · exact fun _ _ ↦ rfl

/-- The loop of a call, over the filter and the list from which `state` makes the state. -/
theorem mentions_spec {α β : Type} {key : α → Name} {state : NameFilter nmax → β → SubscriptionState}
    {body : α → SubscriptionState → Option SubscriptionState} {update : α → β → β}
    (hset : SetsNumbers find numbers setRegistered)
    (hbody : ∀ filter list element, body element (state filter list) =
      (filter.change find setRegistered isRemoving (key element)).map
        fun filter' ↦ state filter' (update element list)) {elements : List α} {list : β} :
    wp (elements.forM fun element ↦ orOutOfRange (body element))
      (fun _ s' ↦ ∃ filter' list', s' = state filter' list' ∧
        filter.Mentioned find numbers (elements.map key) isRemoving filter')
      (fun error _ ↦ error = .outOfRange) (state filter list) := by
  induction elements generalizing filter list with
  | nil => exact ⟨filter, list, rfl, .refl _⟩
  | cons element elements ih =>
    rw [List.forM_eq_forM, List.forM_cons, wp_bind, orOutOfRange, wp_bind, wp_get, hbody]
    cases hchange : filter.change find setRegistered isRemoving (key element) with
    | none => rfl
    | some middle =>
      rw [Option.map_some, wp_set]
      apply wp_mono (@ih middle (update element list))
      · intro _ s' h'
        obtain ⟨filter', list', hs', hmentioned⟩ := h'
        exact ⟨filter', list', hs', (NameFilter.mentioned_change hset hchange).cons hmentioned⟩
      · exact fun _ _ ↦ id

/-- The filter after the part of a call that concerns all names. -/
def NameFilter.covered (covering : Option Bool) (filter : NameFilter nmax) : NameFilter nmax :=
  match covering with
  | some isSkipping => filter.clear isSkipping
  | none => filter

/-- The filter says already what a call would make it say: of all names, if it covers them, and of the
names it mentions. -/
structure NameFilter.AlreadySays (find : Name → Option ℕ) (numbers : Name → ℕ → Prop)
    (names : List Name) (covering : Option Bool) (isRemoving : Bool) (filter : NameFilter nmax) :
    Prop where
  defaultValue : ∀ isSkipping, covering = some isSkipping → filter.isSkipped.defaultValue = isSkipping
  others : ∀ isSkipping, covering = some isSkipping → ∀ i, (∀ name ∈ names, ¬ numbers name i) →
    filter.isSkipped.get i = isSkipping
  otherNames : ∀ isSkipping, covering = some isSkipping → ∀ name,
    ¬ (name ∈ names ∧ find name = none ∧ isSkipping ≠ isRemoving) →
      filter.isUnregisteredSkipped name = none
  registered : ∀ name ∈ names, ∀ i, numbers name i → filter.isSkipped.get i = isRemoving
  unregistered : ∀ name ∈ names, find name = none → filter.isSkipped.defaultValue ≠ isRemoving →
    filter.isUnregisteredSkipped name = some isRemoving

/-- A call leaves the filter as it was if and only if the filter said already what the call asks for. -/
theorem sameFilter_iff_alreadySays {covering : Option Bool}
    (h : (filter.covered covering).Mentioned find numbers names isRemoving filter') :
    SameFilter filter filter' ↔ filter.AlreadySays find numbers names covering isRemoving := by
  constructor
  · intro hsame
    have hdefault := hsame.defaultValue.symm.trans h.defaultValue
    constructor
    · rintro isSkipping rfl
      exact hdefault
    · rintro isSkipping rfl i hi
      exact (hsame.get i).symm.trans (h.others i hi)
    · rintro isSkipping rfl name hname
      rw [← hsame.isUnregisteredSkipped]
      exact h.otherNames name hname
    · intro name hname i hi
      exact (hsame.get i).symm.trans (h.registered name hname i hi)
    · intro name hname hfind hdiffers
      rw [hdefault] at hdiffers
      rw [← hsame.isUnregisteredSkipped]
      exact h.unregistered name ⟨hname, hfind, hdiffers⟩
  · intro htells
    have hdefault : (filter.covered covering).isSkipped.defaultValue = filter.isSkipped.defaultValue := by
      cases covering with
      | none => rfl
      | some isSkipping => exact (htells.defaultValue isSkipping rfl).symm
    constructor
    · exact h.defaultValue.trans hdefault
    · intro i
      by_cases hi : ∃ name ∈ names, numbers name i
      · obtain ⟨name, hname, hnumber⟩ := hi
        exact (h.registered name hname i hnumber).trans (htells.registered name hname i hnumber).symm
      · have hnot : ∀ name ∈ names, ¬ numbers name i := fun name hname hnumber ↦ hi ⟨name, hname, hnumber⟩
        apply (h.others i hnot).trans
        cases covering with
        | none => rfl
        | some isSkipping => exact (htells.others isSkipping rfl i hnot).symm
    · funext name
      by_cases hname : name ∈ names ∧ find name = none ∧
          (filter.covered covering).isSkipped.defaultValue ≠ isRemoving
      · rw [h.unregistered name hname]
        rw [hdefault] at hname
        exact (htells.unregistered name hname.1 hname.2.1 hname.2.2).symm
      · rw [h.otherNames name hname]
        cases covering with
        | none => rfl
        | some isSkipping => exact (htells.otherNames isSkipping rfl name hname).symm

end

/-! ## The calls -/

/-- What a call of `modifyEntities` or `modifyTypes` does to all names. -/
def covering {α : Type} (names : Option (List α)) (action : SubscrChangeAction) : Option Bool :=
  if coversAll names action then some (action ≠ .add) else none

section

variable {s : SubscriptionState}

theorem filterEntities_spec (entities : Option (List Name)) (action : SubscrChangeAction) :
    wp (filterEntities entities action)
      (fun _ s' ↦ ∃ filter', s' = { s with symbols := filter' } ∧
        (s.symbols.covered (covering entities action)).Mentioned s.tables.findInstrument
          (fun name i ↦ s.tables.instruments[i]? = some name) (entities.getD []) (action = .remove) filter')
      (fun error _ ↦ error = .outOfRange) s := by
  have hloop := @mentions_spec _ _ _ (action = .remove) _ (s.symbols.covered (covering entities action))
    Name Unit id (fun filter _ ↦ { s with symbols := filter }) (fun name s ↦ s.changeSymbol (action = .remove) name)
    (fun _ _ ↦ ()) (setsSameName_instruments s.tables).setsNumbers (fun _ _ _ ↦ rfl) (entities.getD []) ()
  rw [List.map_id] at hloop
  rw [filterEntities, wp_ite, wp_bind, wp_modify]
  constructor
  · intro hall
    rw [covering, if_pos hall] at hloop ⊢
    exact wp_mono hloop (fun _ _ h ↦ h.imp fun _ h' ↦ h'.elim fun _ ↦ id) fun _ _ ↦ id
  · intro hall
    rw [covering, if_neg hall] at hloop ⊢
    exact wp_mono hloop (fun _ _ h ↦ h.imp fun _ h' ↦ h'.elim fun _ ↦ id) fun _ _ ↦ id

theorem filterTypes_spec (types : Option (List Name)) (action : SubscrChangeAction) :
    wp (filterTypes types action)
      (fun _ s' ↦ ∃ filter', s' = { s with types := filter' } ∧
        (s.types.covered (covering types action)).Mentioned s.tables.findMsgDescByType
          (fun name i ↦ s.tables.typeName i = some name) (types.getD []) (action = .remove) filter')
      (fun error _ ↦ error = .outOfRange) s := by
  have hloop := @mentions_spec _ _ _ (action = .remove) _ (s.types.covered (covering types action))
    Name Unit id (fun filter _ ↦ { s with types := filter }) (fun name s ↦ s.changeType (action = .remove) name)
    (fun _ _ ↦ ()) (setsSameName_types s.tables).setsNumbers (fun _ _ _ ↦ rfl) (types.getD []) ()
  rw [List.map_id] at hloop
  rw [filterTypes, wp_ite, wp_bind, wp_modify]
  constructor
  · intro hall
    rw [covering, if_pos hall] at hloop ⊢
    exact wp_mono hloop (fun _ _ h ↦ h.imp fun _ h' ↦ h'.elim fun _ ↦ id) fun _ _ ↦ id
  · intro hall
    rw [covering, if_neg hall] at hloop ⊢
    exact wp_mono hloop (fun _ _ h ↦ h.imp fun _ h' ↦ h'.elim fun _ ↦ id) fun _ _ ↦ id

/-- What a call of `modifyStreams` other than `SET` does to all streams. -/
def coveringStreams (streams : Option (List TickStream)) (action : SubscrChangeAction) : Option Bool :=
  if streams.isNone then some (action ≠ .add) else none

/-- The keys of the streams of a call. -/
def streamKeys (streams : Option (List TickStream)) : List Name := (streams.getD []).map TickStream.key

/-- The state after a call of `modifyStreams` other than `SET` has changed the filter. -/
def StreamsMentioned (streams : Option (List TickStream)) (action : SubscrChangeAction)
    (s s' : SubscriptionState) : Prop :=
  ∃ filter' list, s' = { s with streams := filter', tickdbStreams := list } ∧
    (s.streams.covered (coveringStreams streams action)).Mentioned s.tables.findStreamId
      (fun name i ↦ s.tables.findStreamId name = some i) (streamKeys streams) (action = .remove) filter'

theorem filterStreams_spec (streams : Option (List TickStream)) (action : SubscrChangeAction) :
    wp (filterStreams streams action) (fun _ ↦ StreamsMentioned streams action s)
      (fun error _ ↦ error = .outOfRange) s := by
  have hloop := @mentions_spec _ _ _ (action = .remove) _
    (s.streams.covered (coveringStreams streams action)) TickStream (List (Option TickStream))
    TickStream.key (fun filter list ↦ { s with streams := filter, tickdbStreams := list })
    (fun stream s ↦ s.changeStream (action = .remove) stream)
    (SubscriptionState.updateStreamList (action = .remove)) (setsNumbers_streams s.tables)
    (fun _ _ _ ↦ rfl) (streams.getD []) s.tickdbStreams
  have hlast : ∀ s', StreamsMentioned streams action s s' → StreamsMentioned streams action s
      { s' with tickdbStreams := none :: s'.tickdbStreams.filter Option.isSome } := by
    rintro _ ⟨filter', list', rfl, hmentioned⟩
    exact ⟨filter', _, rfl, hmentioned⟩
  have hbody : wp (do
        (streams.getD []).forM fun stream ↦ orOutOfRange (·.changeStream (action = .remove) stream)
        modify fun s ↦ { s with tickdbStreams := none :: s.tickdbStreams.filter Option.isSome })
      (fun _ ↦ StreamsMentioned streams action s) (fun error _ ↦ error = .outOfRange)
      { s with streams := s.streams.covered (coveringStreams streams action) } := by
    rw [wp_bind]
    exact wp_mono hloop (fun _ s' h' ↦ hlast s' h') fun _ _ ↦ id
  rw [filterStreams, wp_ite, wp_bind, wp_modify]
  unfold coveringStreams at hbody
  constructor
  · intro hall
    rwa [if_pos hall] at hbody
  · intro hall
    rwa [if_neg hall] at hbody

end

/-- A call that changes the subscription. -/
inductive SubscriptionCall
  | reset (dt : ℤ)
  | modifyEntities (change : Change)
  | modifyTypes (change : Change)
  | modifyStreams (streams : Option (List TickStream)) (action : SubscrChangeAction)
  deriving DecidableEq, Repr

def SubscriptionCall.run (answer : Request → Option ℤ) : SubscriptionCall → CursorM Unit
  | .reset dt => Cursor.reset answer dt
  | .modifyEntities change => Cursor.modifyEntities answer change.names change.action
  | .modifyTypes change => Cursor.modifyTypes answer change.names change.action
  | .modifyStreams streams action => Cursor.modifyStreams answer streams action

namespace SubscriptionState

/-- `addSubscriptionCommand` does not throw. -/
def accepts (s : SubscriptionState) (cmdId : ℤ) : Bool :=
  s.lastExpectedCommandId = -1 || cmdId = s.lastExpectedCommandId + 1

/-- The state in which a command that was accepted is expected. -/
def expecting (s : SubscriptionState) (cmdId : ℤ) : SubscriptionState :=
  { s with
    firstExpectedCommandId := if s.lastExpectedCommandId = -1 then cmdId else s.firstExpectedCommandId
    lastExpectedCommandId := cmdId
    readingRestarted := true }

end SubscriptionState

/-- What a call leaves alone but the subscription. -/
structure KeptBeside (c c' : TickCursorImpl) : Prop where
  wellFormed : c'.subState.WellFormed
  isInterrupted : c'.isInterrupted = c.isInterrupted
  isSystemMessage : c'.isSystemMessage = c.isSystemMessage
  cursorId : c'.cursorId = c.cursorId
  subscriptionTimeMs : c'.subscriptionTimeMs = c.subscriptionTimeMs

theorem KeptBeside.of_subStateOnly (hc : c'.subState.WellFormed) (h : SubStateOnly c c') :
    KeptBeside c c' := by
  rw [SubStateOnly] at h
  exact ⟨hc, by rw [h], by rw [h], by rw [h], by rw [h]⟩

theorem KeptBeside.trans {d : TickCursorImpl} (h : KeptBeside c c') (h' : KeptBeside c' d) :
    KeptBeside c d :=
  ⟨h'.wellFormed, h'.isInterrupted.trans h.isInterrupted, h'.isSystemMessage.trans h.isSystemMessage,
    h'.cursorId.trans h.cursorId, h'.subscriptionTimeMs.trans h.subscriptionTimeMs⟩

/-- The command that a request starts, if the server answers and the answer is accepted. -/
def startedCommand (answer : Request → Option ℤ) (request : Request) (s : SubscriptionState) : Option ℤ :=
  (answer request).filter s.accepts

theorem addSubscriptionCommand_spec (hc : c.subState.WellFormed) (cmdId : ℤ) :
    wp (addSubscriptionCommand cmdId)
      (fun _ c' ↦ KeptBeside c c' ∧ c.subState.latest.accepts cmdId = true ∧
        c'.subState.latest = c.subState.latest.expecting cmdId)
      (fun error c' ↦ error ≠ .outOfRange ∧ KeptBeside c c' ∧ c.subState.latest.accepts cmdId = false ∧
        c'.subState.latest = c.subState.latest) c := by
  have hexpect : wp (expectCommand cmdId)
      (fun _ s ↦ c.subState.latest.accepts cmdId = true ∧
        { s with readingRestarted := true } = c.subState.latest.expecting cmdId)
      (fun error s ↦ error ≠ .outOfRange ∧ c.subState.latest.accepts cmdId = false ∧
        s = c.subState.latest) c.subState.latest := by
    simp only [expectCommand, wp_bind, wp_get, wp_ite, wp_throw, wp_set]
    constructor
    · intro hnone
      simp [SubscriptionState.accepts, SubscriptionState.expecting, hnone]
    · intro hsome
      simp only [SubscriptionState.accepts, SubscriptionState.expecting, if_neg hsome]
      constructor
      · intro hother
        simp [hsome, hother]
      · intro hnext
        simp [hsome, not_not.mp hnext]
  rw [addSubscriptionCommand, wp_bind, onShadow, wp_zoom]
  apply wp_mono hexpect
  · intro _ s hs
    simp only [wp_bind, wp_modify, onShadow, wp_zoom]
    have hwell : (c.subState.write fun _ ↦ s).WellFormed := CopyOnWrite.wellFormed_write hc
    refine ⟨⟨CopyOnWrite.wellFormed_write hwell, rfl, rfl, rfl, rfl⟩, hs.1, ?_⟩
    rw [CopyOnWrite.latest_write, CopyOnWrite.latest_write]
    exact hs.2
  · intro error s hs
    refine ⟨hs.1, ⟨CopyOnWrite.wellFormed_write hc, rfl, rfl, rfl, rfl⟩, hs.2.1, ?_⟩
    rw [CopyOnWrite.latest_write]
    exact hs.2.2

/-- A request, after the filter was changed; `asked` says what the filter part leaves. -/
theorem changeSubscription_spec {filter : SubscriptionM Unit} {asked : SubscriptionState → Prop}
    (answer : Request → Option ℤ) {request : TickCursorImpl → Request} (hc : c.subState.WellFormed)
    (hrequest : ∀ m, request { c with subState := m } = request c)
    (hcommands : ∀ s, asked s → s.lastExpectedCommandId = c.subState.latest.lastExpectedCommandId)
    (hfilter : wp filter (fun _ ↦ asked) (fun error _ ↦ error = .outOfRange) c.subState.latest) :
    wp (changeSubscription answer filter request)
      (fun _ c' ↦ KeptBeside c c' ∧ ∃ s cmdId, asked s ∧
        startedCommand answer (request c) c.subState.latest = some cmdId ∧
        c'.subState.latest = s.expecting cmdId)
      (fun error c' ↦ error = .outOfRange ∨ KeptBeside c c' ∧ asked c'.subState.latest ∧
        startedCommand answer (request c) c.subState.latest = none) c := by
  apply wp_call (getWriteShadowState_spec hc)
  · intro _ c₁ h₁
    obtain ⟨hwell₁, honly₁, hlatest₁⟩ := h₁
    rw [← hlatest₁] at hfilter
    apply wp_call (onShadow_spec hwell₁ hfilter)
    · intro _ c₂ h₂
      obtain ⟨hwell₂, honly₂, hasked⟩ := h₂
      have honly : SubStateOnly c c₂ := by
        rw [SubStateOnly] at honly₁ honly₂ ⊢
        rw [honly₂, honly₁]
      have hbeside := KeptBeside.of_subStateOnly hwell₂ honly
      have hsame : request c₂ = request c := by
        rw [SubStateOnly] at honly
        rw [honly]
        exact hrequest _
      have haccepts : c₂.subState.latest.accepts = c.subState.latest.accepts := by
        funext cmdId
        rw [SubscriptionState.accepts, SubscriptionState.accepts, hcommands _ hasked]
      rw [wp_bind, wp_get, hsame, execute]
      cases hanswer : answer (request c) with
      | none =>
        right
        refine ⟨hbeside, hasked, ?_⟩
        rw [startedCommand, hanswer, Option.filter_none]
      | some cmdId =>
        rw [pure_bind]
        apply wp_mono (addSubscriptionCommand_spec hwell₂ cmdId)
        · intro _ c' h'
          refine ⟨hbeside.trans h'.1, _, cmdId, hasked, ?_, h'.2.2⟩
          rw [startedCommand, hanswer, ← haccepts]
          exact Option.filter_some_pos h'.2.1
        · intro error c' h'
          right
          refine ⟨hbeside.trans h'.2.1, ?_, ?_⟩
          · rwa [h'.2.2.2]
          · rw [startedCommand, hanswer, ← haccepts]
            apply Option.filter_some_neg
            simp [h'.2.2.1]
    · exact fun _ _ h ↦ .inl h.2.2
  · exact fun _ _ ↦ False.elim

/-- A failed reset has marked the state and cleared the filters. -/
theorem reset_spec (answer : Request → Option ℤ) (dt : ℤ) (hc : c.subState.WellFormed) :
    wp (Cursor.reset answer dt) (fun _ _ ↦ True)
      (fun _ c' ↦ c'.subState.WellFormed ∧ c'.isInterrupted = c.isInterrupted ∧
        c'.isSystemMessage = c.isSystemMessage ∧ c'.subState.latest =
          { c.subState.latest with isResetInProgress := true }.clearMessageFilters false) c := by
  apply wp_call (getWriteShadowState_spec hc)
  · intro _ c₁ h₁
    obtain ⟨hwell₁, honly₁, hlatest₁⟩ := h₁
    have hclear : wp (modify fun s : SubscriptionState ↦
          { s with isResetInProgress := true }.clearMessageFilters false : SubscriptionM Unit)
        (fun _ s ↦ s = { c.subState.latest with isResetInProgress := true }.clearMessageFilters false)
        (fun _ _ ↦ False) c₁.subState.latest := by
      rw [wp_modify, hlatest₁]
    apply wp_call (onShadow_spec hwell₁ hclear)
    · intro _ c₂ h₂
      obtain ⟨hwell₂, honly₂, hlatest₂⟩ := h₂
      have hint : c₂.isInterrupted = c.isInterrupted := by rw [honly₂, honly₁]
      have hsystem : c₂.isSystemMessage = c.isSystemMessage := by rw [honly₂, honly₁]
      rw [wp_bind, wp_modify, wp_bind, wp_get, execute]
      cases answer (.reset c₂.cursorId dt) with
      | none => exact ⟨hwell₂, hint, hsystem, hlatest₂⟩
      | some cmdId =>
        have hwell₃ : ({ c₂ with subscriptionTimeMs := useCursorTime } : TickCursorImpl).subState.WellFormed :=
          hwell₂
        rw [pure_bind]
        apply wp_call (addSubscriptionCommand_spec hwell₃ cmdId)
        · exact fun _ _ _ ↦ trivial
        · intro _ c' h'
          refine ⟨h'.2.1.wellFormed, h'.2.1.isInterrupted.trans hint, h'.2.1.isSystemMessage.trans hsystem, ?_⟩
          exact h'.2.2.2.trans hlatest₂
    · exact fun _ _ h ↦ h.2.2.elim
  · exact fun _ _ ↦ False.elim

/-! ## When a failed call changes nothing -/

/-- Nothing is skipped, and nothing will be. -/
structure NameFilter.SkipsNothing {nmax : ℕ} (filter : NameFilter nmax) : Prop where
  defaultValue : filter.isSkipped.defaultValue = false
  get : ∀ i, filter.isSkipped.get i = false
  isUnregisteredSkipped : ∀ name, filter.isUnregisteredSkipped name = none

theorem sameFilter_clear_iff {nmax : ℕ} {filter : NameFilter nmax} :
    SameFilter filter (filter.clear false) ↔ filter.SkipsNothing := by
  constructor
  · intro h
    exact ⟨h.defaultValue.symm, fun i ↦ (h.get i).symm,
      fun name ↦ (congrFun h.isUnregisteredSkipped name).symm⟩
  · intro h
    exact ⟨h.defaultValue.symm, fun i ↦ (h.get i).symm, funext fun name ↦ (h.isUnregisteredSkipped name).symm⟩

/-- The filters, the reset flag and the expected commands are as they were, and the reader does the same
with every rest of the stream. -/
structure Unaffected (c c' : TickCursorImpl) : Prop where
  subscription : SameSubscription c.subState.latest c'.subState.latest
  streams : SameFilter c.subState.latest.streams c'.subState.latest.streams
  delivery : ∀ records, delivery records c' = delivery records c

namespace SubscriptionCall

/-- The streams filter says already what a call of `modifyStreams` would make it say. -/
def StreamsAlreadySay (names : List Name) (covering : Option Bool) (isRemoving : Bool)
    (s : SubscriptionState) : Prop :=
  s.streams.AlreadySays s.tables.findStreamId (fun name i ↦ s.tables.findStreamId name = some i) names covering
    isRemoving

/-- All that the call writes before its request fails is there already. A `SET` of `modifyStreams` first
removes all streams; when only its second request fails, the command of the first is expected. -/
def WritesNothingNew (answer : Request → Option ℤ) (c : TickCursorImpl) : SubscriptionCall → Prop
  | .reset _ =>
    c.subState.latest.isResetInProgress = true ∧ c.subState.latest.symbols.SkipsNothing ∧
      c.subState.latest.types.SkipsNothing ∧ c.subState.latest.streams.SkipsNothing
  | .modifyEntities change =>
    c.subState.latest.symbols.AlreadySays c.subState.latest.tables.findInstrument
      (fun name i ↦ c.subState.latest.tables.instruments[i]? = some name) (change.names.getD [])
      (covering change.names change.action) (change.action = .remove)
  | .modifyTypes change =>
    c.subState.latest.types.AlreadySays c.subState.latest.tables.findMsgDescByType
      (fun name i ↦ c.subState.latest.tables.typeName i = some name) (change.names.getD [])
      (covering change.names change.action) (change.action = .remove)
  | .modifyStreams streams action =>
    if action = .set then
      match startedCommand answer (.changeStreams c.cursorId c.subscriptionTimeMs .remove none)
        c.subState.latest with
      | none => StreamsAlreadySay [] (some true) true c.subState.latest
      | some cmdId =>
        cmdId = -1 ∧ c.subState.latest.firstExpectedCommandId = -1 ∧
          c.subState.latest.lastExpectedCommandId = -1 ∧
          StreamsAlreadySay (streamKeys streams) (some true) false c.subState.latest
    else
      StreamsAlreadySay (streamKeys streams) (coveringStreams streams action) (action = .remove)
        c.subState.latest

end SubscriptionCall

/-- What differs in the latest state is what the reader can tell apart. -/
theorem unaffected_iff (hc : c.subState.WellFormed) (hc' : c'.subState.WellFormed)
    (hint : c'.isInterrupted = c.isInterrupted) (hsystem : c'.isSystemMessage = c.isSystemMessage) :
    Unaffected c c' ↔ SameSubscription c.subState.latest c'.subState.latest ∧
      SameFilter c.subState.latest.streams c'.subState.latest.streams := by
  constructor
  · intro h
    exact ⟨h.subscription, h.streams⟩
  · intro h
    have hreading : SameReading c c' := ⟨hc, hc', hint, hsystem, h.1⟩
    exact ⟨h.1, h.2, fun records ↦ hreading.delivery_eq records⟩

section

variable {answer : Request → Option ℤ} {error : CursorError}

theorem failed_reset_iff {dt : ℤ} (hc : c.subState.WellFormed)
    (hfailed : Cursor.reset answer dt c = .error error c') :
    Unaffected c c' ↔ (SubscriptionCall.reset dt).WritesNothingNew answer c := by
  have hspec := (wp_error hfailed).mp (reset_spec answer dt hc)
  obtain ⟨hwell, hint, hsystem, hlatest⟩ := hspec
  rw [unaffected_iff hc hwell hint hsystem, hlatest, SubscriptionCall.WritesNothingNew]
  constructor
  · intro h
    exact ⟨h.1.isResetInProgress.symm, sameFilter_clear_iff.mp h.1.symbols, sameFilter_clear_iff.mp h.1.types,
      sameFilter_clear_iff.mp h.2⟩
  · intro h
    obtain ⟨hreset, hsymbols, htypes, hstreams⟩ := h
    refine ⟨?_, sameFilter_clear_iff.mpr hstreams⟩
    exact ⟨hreset.symm, rfl, rfl, rfl, rfl, sameFilter_clear_iff.mpr hsymbols, sameFilter_clear_iff.mpr htypes⟩

theorem failed_modifyEntities_iff {change : Change} (hc : c.subState.WellFormed)
    (hfailed : Cursor.modifyEntities answer change.names change.action c = .error error c')
    (hrequested : error ≠ .outOfRange) :
    Unaffected c c' ↔ (SubscriptionCall.modifyEntities change).WritesNothingNew answer c := by
  have hspec := (wp_error hfailed).mp (changeSubscription_spec answer hc (fun _ ↦ rfl)
    (fun s h ↦ by obtain ⟨_, rfl, _⟩ := h; rfl) (filterEntities_spec change.names change.action))
  obtain ⟨hbeside, ⟨filter', hlatest, hmentioned⟩, -⟩ := hspec.resolve_left hrequested
  rw [unaffected_iff hc hbeside.wellFormed hbeside.isInterrupted hbeside.isSystemMessage, hlatest,
    SubscriptionCall.WritesNothingNew, ← sameFilter_iff_alreadySays hmentioned]
  constructor
  · exact fun h ↦ h.1.symbols
  · exact fun h ↦ ⟨⟨rfl, rfl, rfl, rfl, rfl, h, .refl _⟩, .refl _⟩

theorem failed_modifyTypes_iff {change : Change} (hc : c.subState.WellFormed)
    (hfailed : Cursor.modifyTypes answer change.names change.action c = .error error c')
    (hrequested : error ≠ .outOfRange) :
    Unaffected c c' ↔ (SubscriptionCall.modifyTypes change).WritesNothingNew answer c := by
  have hspec := (wp_error hfailed).mp (changeSubscription_spec answer hc (fun _ ↦ rfl)
    (fun s h ↦ by obtain ⟨_, rfl, _⟩ := h; rfl) (filterTypes_spec change.names change.action))
  obtain ⟨hbeside, ⟨filter', hlatest, hmentioned⟩, -⟩ := hspec.resolve_left hrequested
  rw [unaffected_iff hc hbeside.wellFormed hbeside.isInterrupted hbeside.isSystemMessage, hlatest,
    SubscriptionCall.WritesNothingNew, ← sameFilter_iff_alreadySays hmentioned]
  constructor
  · exact fun h ↦ h.1.types
  · exact fun h ↦ ⟨⟨rfl, rfl, rfl, rfl, rfl, .refl _, h⟩, .refl _⟩

theorem modifyStreamsLocked_spec (answer : Request → Option ℤ) (streams : Option (List TickStream))
    (action : SubscrChangeAction) (hc : c.subState.WellFormed) :
    wp (modifyStreamsLocked answer streams action)
      (fun _ c' ↦ KeptBeside c c' ∧ ∃ s cmdId, StreamsMentioned streams action c.subState.latest s ∧
        startedCommand answer (.changeStreams c.cursorId c.subscriptionTimeMs action streams)
          c.subState.latest = some cmdId ∧ c'.subState.latest = s.expecting cmdId)
      (fun error c' ↦ error = .outOfRange ∨ KeptBeside c c' ∧
        StreamsMentioned streams action c.subState.latest c'.subState.latest ∧
        startedCommand answer (.changeStreams c.cursorId c.subscriptionTimeMs action streams)
          c.subState.latest = none) c :=
  changeSubscription_spec answer hc (fun _ ↦ rfl) (fun s h ↦ by obtain ⟨_, _, rfl, _⟩ := h; rfl)
    (filterStreams_spec streams action)

/-- A request for streams failed and no other was made. -/
theorem streams_unaffected_iff {streams : Option (List TickStream)} {action : SubscrChangeAction}
    (hc : c.subState.WellFormed) (hbeside : KeptBeside c c')
    (hmentioned : StreamsMentioned streams action c.subState.latest c'.subState.latest) :
    Unaffected c c' ↔ SubscriptionCall.StreamsAlreadySay (streamKeys streams)
      (coveringStreams streams action) (action = .remove) c.subState.latest := by
  obtain ⟨filter', list, hlatest, hfilter⟩ := hmentioned
  rw [unaffected_iff hc hbeside.wellFormed hbeside.isInterrupted hbeside.isSystemMessage, hlatest,
    SubscriptionCall.StreamsAlreadySay, ← sameFilter_iff_alreadySays hfilter]
  constructor
  · exact fun h ↦ h.2
  · exact fun h ↦ ⟨⟨rfl, rfl, rfl, rfl, rfl, .refl _, .refl _⟩, h⟩

/-- The streams filter is not looked at: a failed request for streams is not seen in what is delivered. -/
theorem failed_modifyStreams_delivery {streams : Option (List TickStream)} {action : SubscrChangeAction}
    (hc : c.subState.WellFormed) (haction : action ≠ .set)
    (hfailed : Cursor.modifyStreams answer streams action c = .error error c')
    (hrequested : error ≠ .outOfRange) (records : List StreamRecord) :
    delivery records c' = delivery records c := by
  rw [Cursor.modifyStreams, if_neg haction] at hfailed
  have hspec := (wp_error hfailed).mp (modifyStreamsLocked_spec answer streams action hc)
  obtain ⟨hbeside, ⟨filter', list, hlatest, -⟩, -⟩ := hspec.resolve_left hrequested
  apply SameReading.delivery_eq
  refine ⟨hc, hbeside.wellFormed, hbeside.isInterrupted, hbeside.isSystemMessage, ?_⟩
  rw [hlatest]
  exact ⟨rfl, rfl, rfl, rfl, rfl, .refl _, .refl _⟩

theorem expecting_same_iff {s : SubscriptionState} {cmdId : ℤ} (haccepts : s.accepts cmdId = true) :
    (s.expecting cmdId).firstExpectedCommandId = s.firstExpectedCommandId ∧
      (s.expecting cmdId).lastExpectedCommandId = s.lastExpectedCommandId ↔
    cmdId = -1 ∧ s.firstExpectedCommandId = -1 ∧ s.lastExpectedCommandId = -1 := by
  simp only [SubscriptionState.accepts, Bool.or_eq_true, decide_eq_true_eq] at haccepts
  simp only [SubscriptionState.expecting]
  split <;> omega

theorem accepts_startedCommand {request : Request} {s : SubscriptionState} {cmdId : ℤ}
    (h : startedCommand answer request s = some cmdId) : s.accepts cmdId = true :=
  (Option.filter_eq_some_iff.mp h).2

/-- All streams were removed and those of the list added, and only the second request failed. -/
theorem streams_unaffected_set_iff {streams : Option (List TickStream)} {filter : NameFilter 0x100}
    {list : List (Option TickStream)} {cmdId : ℤ} (hc : c.subState.WellFormed) (hbeside : KeptBeside c c')
    (hsome : streams.getD [] ≠ []) (haccepts : c.subState.latest.accepts cmdId = true)
    (hremoved : (c.subState.latest.streams.covered (some true)).Mentioned
      c.subState.latest.tables.findStreamId (fun name i ↦ c.subState.latest.tables.findStreamId name = some i)
      [] true filter)
    (hadded : StreamsMentioned streams .add
      ({ c.subState.latest with streams := filter, tickdbStreams := list }.expecting cmdId)
      c'.subState.latest) :
    Unaffected c c' ↔ cmdId = -1 ∧ c.subState.latest.firstExpectedCommandId = -1 ∧
      c.subState.latest.lastExpectedCommandId = -1 ∧
      SubscriptionCall.StreamsAlreadySay (streamKeys streams) (some true) false c.subState.latest := by
  obtain ⟨filter', list', hlatest, hfilter⟩ := hadded
  have hcovering : coveringStreams streams .add = none := by
    cases streams with
    | none => exact absurd rfl hsome
    | some streams => rfl
  rw [hcovering] at hfilter
  have hsame := sameFilter_iff_alreadySays (hremoved.nil_trans hfilter)
  have hcommands := expecting_same_iff haccepts
  rw [unaffected_iff hc hbeside.wellFormed hbeside.isInterrupted hbeside.isSystemMessage, hlatest,
    SubscriptionCall.StreamsAlreadySay]
  constructor
  · intro h
    obtain ⟨hid, hfirst, hlast⟩ := hcommands.mp ⟨h.1.first, h.1.last⟩
    exact ⟨hid, hfirst, hlast, hsame.mp h.2⟩
  · intro h
    obtain ⟨hid, hfirst, hlast, htells⟩ := h
    have hkept := hcommands.mpr ⟨hid, hfirst, hlast⟩
    exact ⟨⟨rfl, hkept.1, hkept.2, rfl, rfl, .refl _, .refl _⟩, hsame.mpr htells⟩

theorem failed_modifyStreams_iff {streams : Option (List TickStream)} {action : SubscrChangeAction}
    (hc : c.subState.WellFormed) (hfailed : Cursor.modifyStreams answer streams action c = .error error c')
    (hrequested : error ≠ .outOfRange) :
    Unaffected c c' ↔ (SubscriptionCall.modifyStreams streams action).WritesNothingNew answer c := by
  rw [SubscriptionCall.WritesNothingNew]
  by_cases hset : action = .set
  · rw [if_pos hset]
    have hspec : wp (Cursor.modifyStreams answer streams action) (fun _ _ ↦ True)
        (fun error c' ↦ error = .outOfRange ∨ (Unaffected c c' ↔
          match startedCommand answer (.changeStreams c.cursorId c.subscriptionTimeMs .remove none)
            c.subState.latest with
          | none => SubscriptionCall.StreamsAlreadySay [] (some true) true c.subState.latest
          | some cmdId =>
            cmdId = -1 ∧ c.subState.latest.firstExpectedCommandId = -1 ∧
              c.subState.latest.lastExpectedCommandId = -1 ∧
              SubscriptionCall.StreamsAlreadySay (streamKeys streams) (some true) false c.subState.latest)) c := by
      rw [Cursor.modifyStreams, if_pos hset]
      apply wp_call (modifyStreamsLocked_spec answer none .remove hc)
      · -- the first request succeeded
        intro _ c₁ h₁
        obtain ⟨hbeside, s, cmdId, ⟨filter, list, rfl, hfilter⟩, hstarted, hlatest⟩ := h₁
        rw [hstarted, wp_ite]
        refine ⟨fun hsome ↦ ?_, fun _ ↦ trivial⟩
        apply wp_mono (modifyStreamsLocked_spec answer streams .add hbeside.wellFormed)
        · exact fun _ _ _ ↦ trivial
        · intro error c₂ h₂
          rcases h₂ with hrange | ⟨hbeside', hmentioned, -⟩
          · exact .inl hrange
          right
          have hadded : StreamsMentioned streams .add
              ({ c.subState.latest with streams := filter, tickdbStreams := list }.expecting cmdId)
              c₂.subState.latest := by
            rwa [hlatest] at hmentioned
          exact streams_unaffected_set_iff hc (hbeside.trans hbeside') hsome (accepts_startedCommand hstarted)
            hfilter hadded
      · intro error c₁ h₁
        rcases h₁ with hrange | ⟨hbeside, hmentioned, hnone⟩
        · exact .inl hrange
        right
        rw [hnone]
        exact streams_unaffected_iff hc hbeside hmentioned
    exact ((wp_error hfailed).mp hspec).resolve_left hrequested
  · rw [if_neg hset]
    rw [Cursor.modifyStreams, if_neg hset] at hfailed
    have hspec := (wp_error hfailed).mp (modifyStreamsLocked_spec answer streams action hc)
    obtain ⟨hbeside, hmentioned, -⟩ := hspec.resolve_left hrequested
    exact streams_unaffected_iff hc hbeside hmentioned

end

/-! ## Reachable states -/

/-- What happens to an open cursor; a call or a record may throw. -/
inductive CursorEvent
  | call (call : SubscriptionCall) (answer : Request → Option ℤ)
  | record (record : StreamRecord)
  | interrupt

def CursorEvent.step (c : TickCursorImpl) : CursorEvent → TickCursorImpl
  | .call change answer => finalState (change.run answer) c
  | .record next => finalState next.read c
  | .interrupt => { c with isInterrupted := true, state := .ended }

def runEvents (events : List CursorEvent) (c : TickCursorImpl) : TickCursorImpl :=
  events.foldl CursorEvent.step c

/-- The reader has something to take over exactly when it uses the other copy. -/
def KeepsCopies (c : TickCursorImpl) : Prop := c.subState.WellFormed

theorem keepsCopies_onShadow (program : SubscriptionM Unit) : Preserves KeepsCopies (onShadow program) := by
  intro c hc
  rw [onShadow, wp_zoom]
  exact wp_mono wp_trivial (fun _ _ _ ↦ CopyOnWrite.wellFormed_write hc)
    (fun _ _ _ ↦ CopyOnWrite.wellFormed_write hc)

theorem keepsCopies_onMain (program : SubscriptionM Unit) : Preserves KeepsCopies (onMain program) := by
  intro c hc
  rw [onMain, wp_zoom]
  exact wp_mono wp_trivial (fun _ _ _ ↦ CopyOnWrite.wellFormed_writeMain hc)
    (fun _ _ _ ↦ CopyOnWrite.wellFormed_writeMain hc)

theorem keepsCopies_synchronizeCheck : Preserves KeepsCopies synchronizeCheck :=
  preserves_modify fun _ ↦ CopyOnWrite.wellFormed_takeOver

theorem keepsCopies_addSubscriptionCommand (cmdId : ℤ) :
    Preserves KeepsCopies (addSubscriptionCommand cmdId) := by
  apply Preserves.bind (keepsCopies_onShadow _)
  intro _
  apply Preserves.bind
  · exact preserves_modify fun _ hc ↦ hc
  · exact fun _ ↦ keepsCopies_onShadow _

theorem keepsCopies_request (answer : Request → Option ℤ) (request : TickCursorImpl → Request)
    {next : CursorM Unit} (hnext : Preserves KeepsCopies next) :
    Preserves KeepsCopies (do
      let c ← get
      let cmdId ← execute answer (request c)
      addSubscriptionCommand cmdId
      next) := by
  intro c hc
  rw [wp_bind, wp_get, execute]
  cases answer (request c) with
  | none => exact hc
  | some cmdId =>
    rw [pure_bind]
    exact ((keepsCopies_addSubscriptionCommand cmdId).bind fun _ ↦ hnext) c hc

theorem keepsCopies_changeSubscription (answer : Request → Option ℤ) (filter : SubscriptionM Unit)
    (request : TickCursorImpl → Request) : Preserves KeepsCopies (changeSubscription answer filter request) := by
  apply Preserves.bind (preserves_modify fun c ↦ c.subState.wellFormed_forWriting)
  intro _
  apply Preserves.bind (keepsCopies_onShadow _)
  intro _
  have hrequest := keepsCopies_request answer request (preserves_pure ())
  simpa using hrequest

theorem keepsCopies_call (call : SubscriptionCall) (answer : Request → Option ℤ) :
    Preserves KeepsCopies (call.run answer) := by
  cases call with
  | reset dt =>
    apply Preserves.bind (preserves_modify fun c ↦ c.subState.wellFormed_forWriting)
    intro _
    apply Preserves.bind (keepsCopies_onShadow _)
    intro _
    apply Preserves.bind
    · exact preserves_modify fun _ hc ↦ hc
    · exact fun _ ↦ keepsCopies_request answer _ (keepsCopies_onShadow _)
  | modifyEntities change => exact keepsCopies_changeSubscription answer _ _
  | modifyTypes change => exact keepsCopies_changeSubscription answer _ _
  | modifyStreams streams action =>
    have hlocked : ∀ streams action, Preserves KeepsCopies (modifyStreamsLocked answer streams action) :=
      fun _ _ ↦ keepsCopies_changeSubscription answer _ _
    intro c hc
    simp only [SubscriptionCall.run, modifyStreams, wp_ite, wp_bind]
    constructor
    · intro _
      apply wp_mono (hlocked none .remove c hc)
      · exact fun _ c' hc' ↦ ⟨fun _ ↦ hlocked streams .add c' hc', fun _ ↦ hc'⟩
      · exact fun _ _ hc' ↦ hc'
    · exact fun _ ↦ hlocked streams action c hc

theorem keepsCopies_record (record : StreamRecord) : Preserves KeepsCopies record.read := by
  have hsynchronized : ∀ program, Preserves KeepsCopies (do synchronizeCheck; onMain program) :=
    fun program ↦ keepsCopies_synchronizeCheck.bind fun _ ↦ keepsCopies_onMain program
  cases record with
  | entity symbolId symbol => exact (hsynchronized _).bind fun _ ↦ preserves_pure _
  | messageType descriptorId descriptor =>
    have hread : Preserves KeepsCopies (readMessageType descriptorId descriptor) := by
      apply Preserves.bind (hsynchronized _)
      intro _
      cases descriptor with
      | none => exact preserves_pure ()
      | some named => exact Preserves.ite (preserves_modify fun _ hc ↦ hc) (preserves_pure ())
    exact hread.bind fun _ ↦ preserves_pure _
  | stream streamId streamKey => exact (hsynchronized _).bind fun _ ↦ preserves_pure _
  | message entityId descriptorId streamId =>
    have hfilter : Preserves KeepsCopies (filterMessage entityId descriptorId streamId) := by
      intro c hc
      obtain ⟨d, hrun, hd, -⟩ := takeOverInBlock_eq hc
      rw [filterMessage, wp_bind, wp_ok hrun]
      simp only [wp_bind, wp_get, wp_ite, wp_throw, wp_set, wp_pure]
      exact ⟨fun _ ↦ hd.wellFormed', fun _ ↦ ⟨fun _ ↦ hd.wellFormed', fun _ ↦ ⟨fun _ ↦ hd.wellFormed',
        fun _ ↦ ⟨fun _ ↦ hd.wellFormed', fun _ ↦ hd.wellFormed'⟩⟩⟩⟩
    exact hfilter.bind fun _ ↦ preserves_pure _
  | command cmdId => exact (hsynchronized _).bind fun _ ↦ preserves_pure _
  | terminator =>
    have hread : Preserves KeepsCopies readTerminator := by
      intro c hc
      have htaken := CopyOnWrite.wellFormed_takeOver hc
      simp only [readTerminator, synchronizeCheck, wp_bind, wp_modify, wp_get, wp_ite, wp_pure, wp_set]
      exact ⟨fun _ ↦ htaken, fun _ ↦ htaken⟩
    exact hread.bind fun _ ↦ preserves_pure _

theorem wellFormed_runEvents {events : List CursorEvent} (hc : c.subState.WellFormed) :
    (runEvents events c).subState.WellFormed := by
  induction events generalizing c with
  | nil => exact hc
  | cons event events ih =>
    apply ih
    cases event with
    | call change answer => exact Preserves.finalState (keepsCopies_call change answer) hc
    | record record => exact Preserves.finalState (keepsCopies_record record) hc
    | interrupt => exact hc

/-- In any reachable state, a call whose request fails has no effect if and only if all that it wrote
before was there already. -/
theorem failed_change_unaffected {opened : TickCursorImpl} {s : SubscriptionState} {events : List CursorEvent}
    {call : SubscriptionCall} {answer : Request → Option ℤ} {error : CursorError}
    (hopened : opened.subState = .ofValue s) (hreached : runEvents events opened = c)
    (hfailed : call.run answer c = .error error c') (hrequested : error ≠ .outOfRange) :
    Unaffected c c' ↔ call.WritesNothingNew answer c := by
  have hwell : c.subState.WellFormed := by
    rw [← hreached]
    apply wellFormed_runEvents
    rw [hopened]
    exact CopyOnWrite.wellFormed_ofValue s
  cases call with
  | reset dt => exact failed_reset_iff hwell hfailed
  | modifyEntities change => exact failed_modifyEntities_iff hwell hfailed hrequested
  | modifyTypes change => exact failed_modifyTypes_iff hwell hfailed hrequested
  | modifyStreams streams action => exact failed_modifyStreams_iff hwell hfailed hrequested

/-- A second reset fails before the first one has begun. -/
theorem failed_change_unaffected_resetting :
    Unaffected (runEvents [.call (.reset 0) fun _ ↦ some 0] openedCursor)
      (finalState (reset (fun _ ↦ none) 0) (runEvents [.call (.reset 0) fun _ ↦ some 0] openedCursor)) :=
  (@failed_change_unaffected _ _ openedCursor .empty _ (.reset 0) (fun _ ↦ none) .requestFailed rfl rfl rfl
    (by decide)).mpr ⟨rfl, ⟨rfl, fun _ ↦ rfl, fun _ ↦ rfl⟩, ⟨rfl, fun _ ↦ rfl, fun _ ↦ rfl⟩,
      ⟨rfl, fun _ ↦ rfl, fun _ ↦ rfl⟩⟩

/-- A reset that never began keeps a message from being delivered. -/
theorem failed_reset_skips :
    ¬ ∀ (opened : TickCursorImpl) (s : SubscriptionState) (events : List CursorEvent)
      (call : SubscriptionCall) (answer : Request → Option ℤ) (error : CursorError) (c c' : TickCursorImpl),
      opened.subState = .ofValue s → runEvents events opened = c →
        call.run answer c = .error error c' → error ≠ .outOfRange → Unaffected c c' := by
  intro hall
  have hunaffected := hall openedCursor .empty [.record (.entity 0 [65]), .record (.messageType 0 (some ([84], [])))]
    (.reset 0) (fun _ ↦ none) .requestFailed _ _ rfl rfl rfl (by decide)
  have hdelivery := hunaffected.delivery [.message 0 0 (-1)]
  revert hdelivery
  decide +kernel

end DxApi.Cursor
