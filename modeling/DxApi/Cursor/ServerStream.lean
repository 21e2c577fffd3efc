import DxApi.Cursor.Records

/-!
# What a server sends to a cursor

The stream of a cursor is a sequence of records and of blocks of messages. A record changes what the
cursor knows, and a message passes the filter that the cursor has by then, so that the stream and the
cursor that reads it decide which messages are meant for the client.
-/

namespace DxApi.Cursor.Reading

open Exec ByteOrder Reader

/-! ## Data -/

/-- A string whose length fits in its field and does not stand for null. -/
structure SentText where
  data : Name
  length_lt : data.length < 0xFFFF

/-- The id of an entity in one of its two forms. -/
structure SentEntityId where
  isEid32 : Bool
  entityId : ℕ
  entityId_lt : entityId < if isEid32 then 2 ^ 31 else 0x8000

/-- A number of 64 bits. -/
structure SentInt64 where
  value : ℤ
  low : -2 ^ 63 ≤ value
  high : value < 2 ^ 63

/-- A record outside a block after which the cursor reads on. -/
inductive ServerRecord
  | messageType (descriptorId : UInt16) (text : SentText)
  | instrument (symbolId : SentEntityId) (symbol : Option SentText)
  | streamKey (streamId : UInt8) (newStreamKey : Option SentText)
  | terminator
  | ping
  | cursorId (id : SentInt64)
  | command (cmdId : SentInt64)

/-- What stands one after the other in a stream. -/
inductive StreamItem
  | control (record : ServerRecord)
  | serverError (code : UInt8) (text : Option SentText)
  | blockStart
  | message (record : MessageRecord)
  | blockEnd

deriving instance DecidableEq for MessageRecord

/-! ## The bytes -/

def encodeText : Option SentText → List UInt8
  | none => bigEndian 2 0xFFFF
  | some text => encodeUTF8 text.data

namespace ServerRecord

/-- The byte before the fields of the record. -/
def blockId : ServerRecord → UInt8
  | messageType _ _ => .ofNat typeBlockId
  | instrument _ _ => .ofNat instrumentBlockId
  | streamKey _ _ => .ofNat streamBlockId
  | terminator => .ofNat terminatorBlockId
  | ping => .ofNat pingBlockId
  | cursorId _ => .ofNat cursorBlockId
  | command _ => .ofNat commandBlockId

def isPing : ServerRecord → Bool
  | ping => true
  | _ => false

def encodeFields : ServerRecord → List UInt8
  | messageType descriptorId text => bigEndian 2 descriptorId.toNat ++ encodeUTF8 text.data
  | instrument symbolId symbol => encodeEntityId symbolId.isEid32 symbolId.entityId ++ encodeText symbol
  | streamKey streamId newStreamKey => [streamId] ++ encodeText newStreamKey
  | terminator | ping => []
  | cursorId id | command id => bigEndian 8 (unsigned 8 id.value)

end ServerRecord

def StreamItem.encode : StreamItem → List UInt8
  | control record => record.blockId :: record.encodeFields
  | serverError code text => .ofNat errorBlockId :: ([code] ++ encodeText text)
  | blockStart => [.ofNat messageBlockId]
  | message record => record.encode
  | blockEnd => bigEndian 4 messageBlockTerminatorRecord

def encodeStream (items : List StreamItem) : List UInt8 := items.flatMap StreamItem.encode

@[simp]
theorem encodeStream_nil : encodeStream [] = [] := rfl

@[simp]
theorem encodeStream_cons (item : StreamItem) (items : List StreamItem) :
    encodeStream (item :: items) = item.encode ++ encodeStream items := rfl

theorem StreamItem.encode_ne_nil (item : StreamItem) : item.encode ≠ [] := by
  cases item with
  | control record => exact List.cons_ne_nil _ _
  | serverError code text => exact List.cons_ne_nil _ _
  | blockStart => exact List.cons_ne_nil _ _
  | message record => exact List.append_ne_nil_of_left_ne_nil (List.cons_ne_nil _ _) _
  | blockEnd => exact List.cons_ne_nil _ _

def streamLength (items : List StreamItem) : ℕ := (encodeStream items).length

/-- An item is at least one byte. -/
theorem streamLength_lt_cons (item : StreamItem) (items : List StreamItem) :
    streamLength items < streamLength (item :: items) := by
  have hitem := List.length_pos_iff.mpr item.encode_ne_nil
  rw [streamLength, streamLength, encodeStream_cons, List.length_append]
  omega

/-! ## What an item does to the cursor -/

/-- The text of a name, where null is empty. -/
def textOf (text : Option SentText) : Name := (text.map SentText.data).getD []

/-- The record is one that a server sends to this cursor. -/
def ServerRecord.isExpected (useEntityId32 : Bool) (k : TickCursorImpl) : ServerRecord → Bool
  | instrument symbolId _ => !symbolId.isEid32 || useEntityId32
  | streamKey streamId _ => streamId.toNat ≠ emptyStreamByte
  | cursorId id => k.cursorId = -1 ∨ k.cursorId = id.value
  | messageType _ _ | terminator | ping | command _ => true

/-- What the cursor does with a record that was read; false when it has ended. -/
def ServerRecord.take (fromXML : Name → Option (Name × Name)) : ServerRecord → CursorM Bool
  | messageType descriptorId text => do
    Cursor.readMessageType descriptorId.toNat (fromXML text.data)
    return true
  | instrument symbolId symbol => do
    Cursor.readEntity symbolId.entityId (textOf symbol)
    return true
  | streamKey streamId newStreamKey => do
    Cursor.readStreamKey streamId.toNat (textOf newStreamKey)
    return true
  | terminator => readTerminator
  | ping => return true
  | cursorId id => do
    modify fun k ↦ { k with cursorId := id.value }
    return true
  | command cmdId => do
    Cursor.readCommand cmdId.value
    return true

/-- The messages of a stream that pass the filter, of a cursor that has come this far, in a block or
not; nothing for a stream that is not a valid one. -/
def passing (fromXML : Name → Option (Name × Name)) (useEntityId32 : Bool) :
    Bool → List StreamItem → TickCursorImpl → Option (List MessageRecord)
  | _, [], _ => some []
  | false, .control record :: items, k =>
    if record.isExpected useEntityId32 k then
      match record.take fromXML k with
      | .ok _ k' => passing fromXML useEntityId32 false items k'
      | .error _ _ => none
    else
      none
  | false, [.serverError _ _], _ => some []
  | false, .blockStart :: items, k => passing fromXML useEntityId32 true items k
  | true, .message record :: items, k =>
    match filterMessage record.header.entityId record.header.typeId record.header.streamId k with
    | .ok true k' => (passing fromXML useEntityId32 true items k').map (record :: ·)
    | .ok false k' => passing fromXML useEntityId32 true items k'
    | .error _ _ => none
  | true, .blockEnd :: items, k => passing fromXML useEntityId32 false items k
  | _, _, _ => none

/-! ## Whatever the state of the cursor -/

/-- Two cursors that were not interrupted and differ in `state` at most. -/
def Alike (k k' : TickCursorImpl) : Prop :=
  ∃ state, k' = { k with state := state } ∧ k.isInterrupted = false

section

variable {k k' : TickCursorImpl}

theorem Alike.refl (h : k.isInterrupted = false) : Alike k k := ⟨k.state, rfl, h⟩

theorem agree_synchronizeCheck (h : Alike k k') : Agree Alike synchronizeCheck k synchronizeCheck k' := by
  obtain ⟨state, rfl, hopen⟩ := h
  exact agree_modify ⟨state, rfl, hopen⟩

theorem agree_onMain (program : SubscriptionM Unit) (h : Alike k k') :
    Agree Alike (onMain program) k (onMain program) k' := by
  obtain ⟨state, rfl, hopen⟩ := h
  have hsame : ∀ s, Agree Eq program s program s := by
    intro s
    rw [Agree]
    cases program s <;> exact ⟨rfl, rfl⟩
  apply Agree.zoom (hsame _)
  intro s _ hs
  subst hs
  exact ⟨state, rfl, hopen⟩

theorem agree_synchronized (program : SubscriptionM Unit) (h : Alike k k') :
    Agree Alike (do synchronizeCheck; onMain program) k (do synchronizeCheck; onMain program) k' :=
  (agree_synchronizeCheck h).bind fun _ _ _ ↦ agree_onMain program

theorem agree_readMessageType (descriptorId : ℕ) (descriptor : Option (Name × Name)) (h : Alike k k') :
    Agree Alike (Cursor.readMessageType descriptorId descriptor) k
      (Cursor.readMessageType descriptorId descriptor) k' := by
  apply (agree_synchronizeCheck h).bind
  intro _ k₁ k₁' h₁
  apply (agree_onMain _ h₁).bind
  intro _ k₂ k₂' h₂
  cases descriptor with
  | none => exact agree_pure _ h₂
  | some named =>
    apply Agree.ite Iff.rfl
    · intro _
      obtain ⟨state, rfl, hopen⟩ := h₂
      exact agree_modify ⟨state, rfl, hopen⟩
    · exact fun _ ↦ agree_pure _ h₂

theorem agree_readTerminator (h : Alike k k') : Agree Alike readTerminator k readTerminator k' := by
  apply (agree_synchronizeCheck h).bind
  intro _ k₁ k₁' h₁
  obtain ⟨state, rfl, hopen⟩ := h₁
  apply agree_get.mpr
  apply Agree.ite Iff.rfl
  · exact fun _ ↦ agree_pure true ⟨state, rfl, hopen⟩
  · intro _
    apply (agree_set ⟨.ended, rfl, hopen⟩).bind
    exact fun _ _ _ ↦ agree_pure false

theorem agree_take (fromXML : Name → Option (Name × Name)) (record : ServerRecord) (h : Alike k k') :
    Agree Alike (record.take fromXML) k (record.take fromXML) k' := by
  cases record with
  | messageType descriptorId text => exact (agree_readMessageType _ _ h).bind fun _ _ _ ↦ agree_pure true
  | instrument symbolId symbol => exact (agree_synchronized _ h).bind fun _ _ _ ↦ agree_pure true
  | streamKey streamId newStreamKey => exact (agree_synchronized _ h).bind fun _ _ _ ↦ agree_pure true
  | terminator => exact agree_readTerminator h
  | ping => exact agree_pure true h
  | cursorId id =>
    obtain ⟨state, rfl, hopen⟩ := h
    exact (agree_modify ⟨state, rfl, hopen⟩).bind fun _ _ _ ↦ agree_pure true
  | command cmdId => exact (agree_synchronized _ h).bind fun _ _ _ ↦ agree_pure true

theorem agree_takeOverInBlock (h : Alike k k') : Agree Alike takeOverInBlock k takeOverInBlock k' := by
  obtain ⟨state, rfl, hopen⟩ := h
  apply agree_get.mpr
  apply Agree.ite Iff.rfl
  · intro _
    apply (agree_modify ⟨state, rfl, hopen⟩ : Agree Alike _ k _ { k with state := state }).bind
    intro _ k₁ k₁' h₁
    obtain ⟨state', rfl, hopen'⟩ := h₁
    apply agree_get.mpr
    apply Agree.ite Iff.rfl
    · intro _
      apply (agree_onMain _ ⟨state', rfl, hopen'⟩).bind
      intro _ k₂ k₂' h₂
      obtain ⟨state'', rfl, hopen''⟩ := h₂
      exact agree_modify ⟨.started, rfl, hopen''⟩
    · exact fun _ ↦ agree_pure _ ⟨state', rfl, hopen'⟩
  · exact fun _ ↦ agree_pure _ ⟨state, rfl, hopen⟩

theorem agree_filterMessage (entityId descriptorId : ℕ) (streamId : ℤ) (h : Alike k k') :
    Agree Alike (filterMessage entityId descriptorId streamId) k (filterMessage entityId descriptorId streamId) k' := by
  apply (agree_takeOverInBlock h).bind
  intro _ k₁ k₁' h₁
  obtain ⟨state, rfl, hopen⟩ := h₁
  have halike : Alike k₁ { k₁ with state := state } := ⟨state, rfl, hopen⟩
  apply agree_get.mpr
  apply Agree.ite Iff.rfl
  · exact fun _ ↦ agree_throw _ halike
  intro _
  apply Agree.ite Iff.rfl
  · exact fun _ ↦ agree_throw _ halike
  intro _
  apply Agree.ite Iff.rfl
  · exact fun _ ↦ agree_throw _ halike
  intro _
  apply Agree.ite Iff.rfl
  · exact fun _ ↦ agree_pure false halike
  intro _
  apply (agree_set ⟨.reading, rfl, hopen⟩).bind
  exact fun _ _ _ ↦ agree_pure true

variable {fromXML : Name → Option (Name × Name)} {useEntityId32 isWithin : Bool} {items : List StreamItem}

/-- The state decides on no message. -/
theorem passing_alike (h : Alike k k') :
    passing fromXML useEntityId32 isWithin items k' = passing fromXML useEntityId32 isWithin items k := by
  induction items generalizing isWithin k k' with
  | nil => simp only [passing]
  | cons item items ih =>
    cases isWithin with
    | false =>
      cases item with
      | control record =>
        have hexpected : record.isExpected useEntityId32 k' = record.isExpected useEntityId32 k := by
          obtain ⟨_, rfl, _⟩ := h
          cases record <;> rfl
        simp only [passing, hexpected]
        cases hrun : record.take fromXML k with
        | ok goesOn k₁ =>
          obtain ⟨k₁', hrun', h'⟩ := (agree_take fromXML record h).of_ok hrun
          rw [hrun']
          simp only [ih h']
        | error error k₁ =>
          obtain ⟨k₁', hrun', -⟩ := (agree_take fromXML record h).of_error hrun
          rw [hrun']
      | serverError code text => cases items <;> simp only [passing]
      | blockStart =>
        simp only [passing]
        exact ih h
      | message record => simp only [passing]
      | blockEnd => simp only [passing]
    | true =>
      cases item with
      | control record => simp only [passing]
      | serverError code text => simp only [passing]
      | blockStart => simp only [passing]
      | message record =>
        have hagree := agree_filterMessage record.header.entityId record.header.typeId record.header.streamId h
        simp only [passing]
        cases hrun : filterMessage record.header.entityId record.header.typeId record.header.streamId k with
        | ok isAccepted k₁ =>
          obtain ⟨k₁', hrun', h'⟩ := hagree.of_ok hrun
          rw [hrun']
          cases isAccepted <;> simp only [ih h']
        | error error k₁ =>
          obtain ⟨k₁', hrun', -⟩ := hagree.of_error hrun
          rw [hrun']
      | blockEnd =>
        simp only [passing]
        exact ih h

end

/-! ## Reading a record -/

section

variable {cls : ReaderClass} {fromXML : Name → Option (Name × Name)} {c : ReadingCursor} {k k' : TickCursorImpl}
  {goesOn : Bool}

theorem decodes_encodeText (text : Option SentText) :
    Decodes cls (getUTF8 cls) (encodeText text) (text.map SentText.data) := by
  cases text with
  | some text => exact decodes_getUTF8 text.length_lt
  | none =>
    have hnull : Decodes cls (getUTF8 cls) (bigEndian 2 0xFFFF ++ []) none := by
      apply (decodes_loadBE (by decide) (by decide)).bind
      rw [if_pos rfl]
      exact decodes_pure none
    rwa [List.append_nil] at hnull

/-- A program that goes on in any case. -/
theorem ok_of_return {program : CursorM Unit} (h : (do program; return true) k = .ok goesOn k') :
    program k = .ok () k' ∧ goesOn = true := by
  have hspec : wp program (fun _ found ↦ goesOn = true ∧ found = k') (fun _ _ ↦ False) k := by
    have hboth : wp (do program; return true) (fun found k₁ ↦ goesOn = found ∧ k₁ = k') (fun _ _ ↦ False) k :=
      (wp_ok h).mpr ⟨rfl, rfl⟩
    rwa [wp_bind] at hboth
  obtain ⟨_, _, hrun, hgoes, rfl⟩ := exists_ok_of_wp hspec
  exact ⟨hrun, hgoes⟩

theorem reads_readMessageType {descriptorId : UInt16} {text : SentText}
    (htake : Cursor.readMessageType descriptorId.toNat (fromXML text.data) c.cursor = .ok () k) :
    Reads cls (readMessageType cls fromXML) (bigEndian 2 descriptorId.toNat ++ encodeUTF8 text.data) c ()
      { c with cursor := k } := by
  apply (reads_onReader (decodes_loadBE (by decide) descriptorId.toNat_lt)).bind
  apply (reads_onReader (decodes_getUTF8 text.length_lt)).bind_last
  exact reads_onCursor htake

theorem reads_readEntity {symbolId : SentEntityId} {symbol : Option SentText}
    (hallowed : symbolId.isEid32 = true → c.useEntityId32 = true)
    (htake : Cursor.readEntity symbolId.entityId (textOf symbol) c.cursor = .ok () k) :
    Reads cls (readEntity cls) (encodeEntityId symbolId.isEid32 symbolId.entityId ++ encodeText symbol) c ()
      { c with cursor := k } := by
  apply (reads_readEntityId symbolId.entityId_lt fun hlong _ ↦ hallowed hlong).bind
  apply (reads_onReader (decodes_encodeText symbol)).bind_last
  exact reads_onCursor htake

theorem reads_readStreamKey {streamId : UInt8} {newStreamKey : Option SentText}
    (hallowed : streamId.toNat ≠ emptyStreamByte)
    (htake : Cursor.readStreamKey streamId.toNat (textOf newStreamKey) c.cursor = .ok () k) :
    Reads cls (readStreamKey cls) ([streamId] ++ encodeText newStreamKey) c () { c with cursor := k } := by
  apply (reads_onReader (decodes_getByte streamId)).bind
  rw [if_neg hallowed]
  apply (reads_onReader (decodes_encodeText newStreamKey)).bind_last
  exact reads_onCursor htake

theorem reads_readCursorId {id : SentInt64} (hallowed : c.cursor.cursorId = -1 ∨ c.cursor.cursorId = id.value) :
    Reads cls (readCursorId cls) (bigEndian 8 (unsigned 8 id.value)) c ()
      { c with cursor := { c.cursor with cursorId := id.value } } := by
  have hsame : ¬ (c.cursor.cursorId ≠ -1 ∧ c.cursor.cursorId ≠ id.value) := by
    rintro ⟨hset, hother⟩
    exact hallowed.elim hset hother
  apply (reads_onReader (decodes_getInt64 id.low id.high)).bind_last
  intro r rest left hready _ _
  rw [wp_bind, wp_get, if_neg hsame, wp_set, List.length_nil, Nat.cast_zero, Int.sub_zero]
  exact ⟨rfl, r, rfl, .refl hready⟩

theorem reads_readCommand {cmdId : SentInt64} (htake : Cursor.readCommand cmdId.value c.cursor = .ok () k) :
    Reads cls (readCommand cls) (bigEndian 8 (unsigned 8 cmdId.value)) c () { c with cursor := k } := by
  apply (reads_onReader (decodes_getInt64 cmdId.low cmdId.high)).bind_last
  exact reads_onCursor htake

theorem Reads.return_true {program : ReadingM Unit} {data : List UInt8} {d : ReadingCursor}
    (h : Reads cls program data c () d) : Reads cls (do program; return true) data c true d :=
  h.bind_last (reads_pure true)

/-- A record is read, and the cursor does with it what it has to. -/
theorem reads_control {record : ServerRecord} (hexpected : record.isExpected c.useEntityId32 c.cursor = true)
    (htake : record.take fromXML c.cursor = .ok goesOn k) :
    Reads cls (readNextRecord cls fromXML) (StreamItem.control record).encode c goesOn
      { c with cursor := k, isIdle := record.isPing } := by
  have hmark : Reads cls (modify fun c ↦ { c with isIdle := false }) [] c ⟨⟩ { c with isIdle := false } :=
    reads_modify fun _ ↦ rfl
  change Reads cls _ ([record.blockId] ++ record.encodeFields) c goesOn _
  apply (reads_onReader (decodes_getByte record.blockId)).bind
  apply hmark.bind_first
  cases record with
  | messageType descriptorId text =>
    obtain ⟨htaken, rfl⟩ := ok_of_return htake
    change Reads cls (do readMessageType cls fromXML; return true) _ _ _ _
    exact Reads.return_true (reads_readMessageType htaken)
  | instrument symbolId symbol =>
    obtain ⟨htaken, rfl⟩ := ok_of_return htake
    have hallowed : symbolId.isEid32 = true → c.useEntityId32 = true := by
      simpa only [ServerRecord.isExpected, Bool.or_eq_true, Bool.not_eq_true', ← Bool.eq_false_iff,
        Classical.or_iff_not_imp_left, ne_eq, Bool.not_eq_false] using hexpected
    change Reads cls (do readEntity cls; return true) _ _ _ _
    exact Reads.return_true (reads_readEntity hallowed htaken)
  | streamKey streamId newStreamKey =>
    obtain ⟨htaken, rfl⟩ := ok_of_return htake
    change Reads cls (do readStreamKey cls; return true) _ _ _ _
    exact Reads.return_true (reads_readStreamKey (of_decide_eq_true hexpected) htaken)
  | terminator =>
    change Reads cls (onCursor readTerminator) _ _ _ _
    exact reads_onCursor htake
  | ping =>
    cases htake
    change Reads cls (do modify fun c ↦ { c with isIdle := true }; return true) _ _ _ _
    exact Reads.return_true (reads_modify fun _ ↦ rfl)
  | cursorId id =>
    obtain ⟨htaken, rfl⟩ := ok_of_return htake
    cases htaken
    change Reads cls (do readCursorId cls; return true) _ _ _ _
    exact Reads.return_true (reads_readCursorId (of_decide_eq_true hexpected))
  | command cmdId =>
    obtain ⟨htaken, rfl⟩ := ok_of_return htake
    change Reads cls (do readCommand cls; return true) _ _ _ _
    exact Reads.return_true (reads_readCommand htaken)

theorem reads_blockStart :
    Reads cls (readNextRecord cls fromXML) StreamItem.blockStart.encode c true
      { c with isIdle := false, isWithinMessageBlock := true } := by
  have hmark : Reads cls (modify fun c ↦ { c with isIdle := false }) [] c ⟨⟩ { c with isIdle := false } :=
    reads_modify fun _ ↦ rfl
  apply (reads_onReader (decodes_getByte (.ofNat messageBlockId))).bind_last
  apply hmark.bind_first
  change Reads cls (do modify fun c ↦ { c with isWithinMessageBlock := true }; return true) _ _ _ _
  exact Reads.return_true (reads_modify fun _ ↦ rfl)

theorem readServerError_throws (c : ReadingCursor) :
    wp (readServerError cls) (fun _ _ ↦ False) (fun _ _ ↦ True) c := by
  rw [readServerError]
  apply wp_call wp_trivial
  · intro code c₁ _
    apply wp_call wp_trivial
    · exact fun _ _ _ ↦ trivial
    · exact fun _ _ _ ↦ trivial
  · exact fun _ _ _ ↦ trivial

/-- An error of the server is thrown. -/
theorem readNextRecord_serverError {code : UInt8} {text : Option SentText} {rest : List UInt8}
    (hahead : Ahead cls c.reader ((StreamItem.serverError code text).encode ++ rest)) :
    wp (readNextRecord cls fromXML) (fun _ _ ↦ False) (fun _ _ ↦ True) c := by
  have hbyte : Reads cls (onReader (getByte cls)) [.ofNat errorBlockId] c errorBlockId c :=
    reads_onReader (decodes_getByte (.ofNat errorBlockId))
  rw [readNextRecord]
  apply wp_call (hbyte.ahead hahead)
  · intro _ _ h₁
    obtain ⟨rfl, r₁, rfl, -⟩ := h₁
    rw [wp_bind, wp_modify]
    change wp (do readServerError cls; return true) _ _ _
    apply wp_call (readServerError_throws _)
    · exact fun _ _ ↦ False.elim
    · exact fun _ _ _ ↦ trivial
  · exact fun _ _ ↦ False.elim

/-- At the end of the stream no record is read. -/
theorem readNextRecord_nothing (hahead : Ahead cls c.reader []) :
    wp (readNextRecord cls fromXML) (fun _ _ ↦ False) (fun _ _ ↦ True) c := by
  rw [readNextRecord, wp_bind, onReader, wp_zoom]
  apply wp_mono (hahead.load_nil (by decide) one_pos)
  · exact fun _ _ ↦ False.elim
  · exact fun _ _ _ ↦ trivial

end

end DxApi.Cursor.Reading
