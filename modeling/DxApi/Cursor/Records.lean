import DxApi.Cursor.Reading

/-!
# Message records

A message in a block is its length, a header and a body. The header has the id of the entity in 16
bits, or in 32 bits of which the highest one is set. `readMessageInBlock` tests the length against
the longer of the two headers, so that it refuses a record with the shorter one when the body has
fewer than two bytes.
-/

namespace DxApi.Cursor.Reading

open Exec ByteOrder Reader

/-! ## Reading for a cursor -/

/-- Started in `c`, whatever its reader, the program takes `data`, returns `value` and leaves `d` with
the reader behind `data`. -/
def Reads {α : Type} (cls : ReaderClass) (program : ReadingM α) (data : List UInt8) (c : ReadingCursor)
    (value : α) (d : ReadingCursor) : Prop :=
  ∀ r rest left, Ready cls r r.dataPtr (data ++ rest) left → (cls.isMsg → (data.length : ℤ) ≤ left) →
    Roomy r → wp program
      (fun found c' ↦ found = value ∧ ∃ r', c' = { d with reader := r' } ∧
        Took cls r r' rest (left - data.length))
      (fun _ _ ↦ False) { c with reader := r }

section

variable {α β : Type} {cls : ReaderClass} {c d e : ReadingCursor} {program : ReadingM α}
  {next : α → ReadingM β} {data data' : List UInt8} {value : α} {value' : β}

theorem reads_pure (value : α) : Reads cls (pure value) [] c value c := by
  intro r rest left h _ _
  rw [wp_pure, List.length_nil, Nat.cast_zero, Int.sub_zero]
  exact ⟨rfl, r, rfl, .refl h⟩

theorem reads_modify {f : ReadingCursor → ReadingCursor}
    (h : ∀ r, f { c with reader := r } = { d with reader := r }) : Reads cls (modify f) [] c ⟨⟩ d := by
  intro r rest left hready _ _
  rw [wp_modify, List.length_nil, Nat.cast_zero, Int.sub_zero, h]
  exact ⟨rfl, r, rfl, .refl hready⟩

/-- What a program does with the cursor does not depend on the reader. -/
theorem reads_get {next : ReadingCursor → ReadingM β}
    (h : ∀ r, Reads cls (next { c with reader := r }) data c value' d) :
    Reads cls (get >>= next) data c value' d := by
  intro r rest left hready hleft hroomy
  rw [wp_bind, wp_get]
  exact h r r rest left hready hleft hroomy

theorem reads_onReader {program : ReaderM α} (h : Decodes cls program data value) :
    Reads cls (onReader program) data c value c := by
  intro r rest left hready hleft hroomy
  rw [onReader, wp_zoom]
  apply wp_mono (h r rest left hready hleft hroomy)
  · exact fun found r' h' ↦ ⟨h'.1, r', rfl, h'.2⟩
  · exact fun _ _ ↦ id

theorem reads_onCursor {program : CursorM α} {cursor : TickCursorImpl}
    (h : program c.cursor = .ok value cursor) :
    Reads cls (onCursor program) [] c value { c with cursor := cursor } := by
  intro r rest left hready _ _
  rw [onCursor, wp_zoom, wp_ok h, List.length_nil, Nat.cast_zero, Int.sub_zero]
  exact ⟨rfl, r, rfl, .refl hready⟩

theorem Reads.bind (h : Reads cls program data c value d) (hnext : Reads cls (next value) data' d value' e) :
    Reads cls (program >>= next) (data ++ data') c value' e := by
  intro r rest left hready hleft hroomy
  rw [List.length_append] at hleft ⊢
  rw [List.append_assoc] at hready
  apply wp_call (h r _ left hready (fun hmsg ↦ by have := hleft hmsg; omega) hroomy)
  · intro found c₁ h₁
    obtain ⟨rfl, r₁, rfl, htook⟩ := h₁
    apply wp_mono (hnext r₁ rest _ htook.ready (fun hmsg ↦ by have := hleft hmsg; omega)
      (htook.moved.roomy.mpr hroomy))
    · intro found' c₂ h₂
      obtain ⟨rfl, r₂, rfl, htook'⟩ := h₂
      have hsame : left - (data.length : ℤ) - (data'.length : ℤ) = left - (data.length + data'.length : ℕ) := by
        omega
      rw [hsame] at htook'
      exact ⟨rfl, r₂, rfl, htook.trans htook'⟩
    · exact fun _ _ ↦ id
  · exact fun _ _ ↦ id

/-- Nothing more is taken. -/
theorem Reads.bind_last (h : Reads cls program data c value d) (hnext : Reads cls (next value) [] d value' e) :
    Reads cls (program >>= next) data c value' e := by
  have hbind := h.bind hnext
  rwa [List.append_nil] at hbind

/-- Nothing was taken yet. -/
theorem Reads.bind_first (h : Reads cls program [] c value d)
    (hnext : Reads cls (next value) data' d value' e) : Reads cls (program >>= next) data' c value' e :=
  h.bind hnext

/-- Between two messages. -/
theorem Reads.ahead {rest : List UInt8} (h : Reads cls program data c value d)
    (hahead : Ahead cls c.reader (data ++ rest)) :
    wp program (fun found c' ↦ found = value ∧ ∃ r', c' = { d with reader := r' } ∧ Ahead cls r' rest)
      (fun _ _ ↦ False) c := by
  obtain ⟨left, hready, hleft, hnext⟩ := hahead.took
  apply wp_mono (h c.reader rest left hready hleft hahead.roomy)
  · intro found c' h'
    obtain ⟨hfound, r', hc', htook⟩ := h'
    exact ⟨hfound, r', hc', hnext r' htook⟩
  · exact fun _ _ ↦ id

/-- Inside a message. -/
theorem Reads.inMessage {rest body : List UInt8} {n consumed left : ℕ} (h : Reads cls program data c value d)
    (hin : InMessage cls c.reader body n consumed left) (hbody : body.drop consumed = data ++ rest)
    (hleft : data.length ≤ left) :
    wp program (fun found c' ↦ found = value ∧ ∃ r', c' = { d with reader := r' } ∧ Moved c.reader r' ∧
      InMessage cls r' body n (consumed + data.length) (left - data.length)) (fun _ _ ↦ False) c := by
  have hready := hin.ready
  rw [hbody] at hready
  apply wp_mono (h c.reader rest left hready (fun _ ↦ by omega) hin.hasRoom)
  · intro found c' h'
    obtain ⟨hfound, r', hc', htook⟩ := h'
    exact ⟨hfound, r', hc', htook.moved, hin.took hbody hleft htook⟩
  · exact fun _ _ ↦ id

end

/-! ## A record -/

/-- A message record as the server may send it. -/
structure MessageRecord where
  timestamp : ℤ
  entityId : ℕ
  isEid32 : Bool
  typeId : UInt8
  streamByte : UInt8
  body : List UInt8
  timestamp_low : -2 ^ 63 ≤ timestamp
  timestamp_high : timestamp < 2 ^ 63
  entityId_lt : entityId < if isEid32 then 2 ^ 31 else 0x8000
  size_le : (if isEid32 then cursorMessageHeaderSizeEid32 else cursorMessageHeaderSizeEid16) +
    body.length ≤ maxMessageSize

/-- The id of an entity in 16 bits, or in 32 with the highest one set. -/
def encodeEntityId (isEid32 : Bool) (entityId : ℕ) : List UInt8 :=
  if isEid32 then bigEndian 2 (0x8000 + entityId / 0x10000) ++ bigEndian 2 (entityId % 0x10000)
  else bigEndian 2 entityId

namespace MessageRecord

def encodeHeader (record : MessageRecord) : List UInt8 :=
  bigEndian 8 (unsigned 8 record.timestamp) ++
    (encodeEntityId record.isEid32 record.entityId ++ ([record.typeId] ++ [record.streamByte]))

/-- The value of the length field. -/
def size (record : MessageRecord) : ℕ := record.encodeHeader.length + record.body.length

def encode (record : MessageRecord) : List UInt8 :=
  bigEndian 4 record.size ++ (record.encodeHeader ++ record.body)

/-- What `next` reports. -/
def header (record : MessageRecord) : MessageHeader where
  length := record.size
  timestamp := record.timestamp
  entityId := record.entityId
  typeId := record.typeId.toNat
  streamId := streamIdOf record.streamByte.toNat

theorem length_encodeHeader (record : MessageRecord) :
    record.encodeHeader.length =
      if record.isEid32 then cursorMessageHeaderSizeEid32 else cursorMessageHeaderSizeEid16 := by
  rw [encodeHeader, encodeEntityId]
  split <;> rfl

theorem size_le_max (record : MessageRecord) : record.size ≤ maxMessageSize := by
  rw [size, length_encodeHeader]
  exact record.size_le

theorem size_lt (record : MessageRecord) : record.size < 0x400001 := Nat.lt_succ_of_le record.size_le_max

/-- The length passes the test exactly when it is not less than the longer header. -/
theorem le_size_iff (record : MessageRecord) :
    cursorMessageHeaderSizeEid32 ≤ record.size ↔ record.isEid32 = true ∨ 2 ≤ record.body.length := by
  rw [size, length_encodeHeader]
  cases record.isEid32 with
  | true => simp [cursorMessageHeaderSizeEid32]
  | false =>
    simp [cursorMessageHeaderSizeEid32, cursorMessageHeaderSizeEid16]
    omega

end MessageRecord

section

variable {cls : ReaderClass} {c d : ReadingCursor}

theorem reads_readEntityId {isEid32 isChecked : Bool} {entityId : ℕ}
    (hlt : entityId < if isEid32 then 2 ^ 31 else 0x8000)
    (hchecked : isEid32 = true → isChecked = true → c.useEntityId32 = true) :
    Reads cls (readEntityId cls isChecked) (encodeEntityId isEid32 entityId) c entityId c := by
  rw [readEntityId, encodeEntityId]
  cases isEid32 with
  | false =>
    have hshort : ¬ 0x8000 ≤ entityId := Nat.not_le_of_lt hlt
    apply (reads_onReader (decodes_loadBE (by decide) (Nat.lt_trans hlt (by decide)))).bind_last
    rw [if_neg hshort]
    exact reads_pure entityId
  | true =>
    have hhigh : entityId / 0x10000 < 0x8000 := Nat.div_lt_of_lt_mul hlt
    have hlow : entityId % 0x10000 < 0x10000 := Nat.mod_lt entityId (by decide)
    have hlong : 0x8000 ≤ 0x8000 + entityId / 0x10000 := Nat.le_add_right _ _
    have hvalue : ((0x8000 + entityId / 0x10000 + 0xFFFF0000) * 2 ^ 16 + entityId % 0x10000 + 0x80000000) % 2 ^ 32 =
        entityId := by omega
    have hallowed : ∀ r, ¬ (isChecked = true ∧ ¬ ({ c with reader := r } : ReadingCursor).useEntityId32 = true) :=
      fun _ hnot ↦ hnot.2 (hchecked rfl hnot.1)
    apply (reads_onReader (decodes_loadBE (by decide) (by omega))).bind
    rw [if_pos hlong]
    apply reads_get
    intro r
    rw [if_neg (hallowed r)]
    apply (reads_onReader (decodes_loadBE (by decide) hlow)).bind_last
    rw [hvalue]
    exact reads_pure entityId

theorem reads_readHeader (record : MessageRecord) :
    Reads cls (readHeader cls record.size) record.encodeHeader c record.header
      { c with lastTimestamp := record.timestamp } := by
  have hmark : Reads cls (modify fun c ↦ { c with lastTimestamp := record.timestamp }) [] c ⟨⟩
      { c with lastTimestamp := record.timestamp } := reads_modify fun _ ↦ rfl
  apply (reads_onReader (decodes_getInt64 record.timestamp_low record.timestamp_high)).bind
  apply hmark.bind_first
  have hid := @reads_readEntityId cls { c with lastTimestamp := record.timestamp } _ false _ record.entityId_lt
    (fun _ hnot ↦ absurd hnot Bool.false_ne_true)
  apply hid.bind
  apply (reads_onReader (decodes_getByte record.typeId)).bind
  apply (reads_onReader (decodes_getByte record.streamByte)).bind_last
  exact reads_pure record.header

/-! ## The filter -/

/-- What the filter looks up of the message is registered. -/
structure Registered (tables : SymbolTranslator) (msg : MessageHeader) : Prop where
  entity : tables.isRegisteredInstrumentId msg.entityId = true
  type : tables.isRegisteredMsgDescId msg.typeId = true
  stream : msg.streamId < tables.streamKeys.length

/-- What the reader knows when it meets the next message. -/
def readingState (c : TickCursorImpl) : SubscriptionState := c.subState.takeOver.current

/-- The reader skips the message. -/
def skips (c : TickCursorImpl) (msg : MessageHeader) : Bool :=
  isMessageSkipped c.isSystemMessage (readingState c) msg.entityId msg.typeId

/-- What the filter depends on. -/
structure SameTables (s t : SubscriptionState) : Prop where
  isResetInProgress : t.isResetInProgress = s.isResetInProgress
  tables : t.tables = s.tables
  symbols : t.symbols = s.symbols
  types : t.types = s.types

theorem takeOverInBlock_reads (c : TickCursorImpl) :
    wp takeOverInBlock
      (fun _ d ↦ d.isSystemMessage = c.isSystemMessage ∧ SameTables (readingState c) d.subState.current)
      (fun _ _ ↦ False) c := by
  simp only [takeOverInBlock, wp_bind, wp_get, wp_ite, wp_modify, wp_pure, onMain, wp_zoom]
  constructor
  · intro _
    constructor
    · intro _
      have hwritten : ∀ f, (c.subState.takeOver.writeMain f).current = f c.subState.takeOver.current :=
        fun f ↦ Function.update_self _ _ _
      rw [hwritten]
      exact ⟨trivial, rfl, rfl, rfl, rfl⟩
    · exact fun _ ↦ ⟨trivial, rfl, rfl, rfl, rfl⟩
  · intro hupdated
    have hsame : c.subState.takeOver = c.subState := by
      rw [CopyOnWrite.takeOver, if_neg hupdated]
    rw [readingState, hsame]
    exact ⟨trivial, rfl, rfl, rfl, rfl⟩

/-- A registered message is not refused. -/
theorem filterMessage_registered {k : TickCursorImpl} {msg : MessageHeader}
    (h : Registered (readingState k).tables msg) :
    ∃ k', filterMessage msg.entityId msg.typeId msg.streamId k = .ok (!skips k msg) k' := by
  have hspec : wp (filterMessage msg.entityId msg.typeId msg.streamId)
      (fun isAccepted _ ↦ isAccepted = !skips k msg) (fun _ _ ↦ False) k := by
    rw [filterMessage]
    apply wp_call (takeOverInBlock_reads k)
    · intro _ k₁ h₁
      obtain ⟨hsystem, hreset, htables, hsymbols, htypes⟩ := h₁
      have hskips : isMessageSkipped k₁.isSystemMessage k₁.subState.current msg.entityId msg.typeId = skips k msg := by
        rw [skips, isMessageSkipped, isMessageSkipped, hsystem, hreset, hsymbols, htypes]
      simp only [wp_bind, wp_get, wp_ite, wp_throw, wp_set, wp_pure, htables, hskips]
      refine ⟨fun hnot ↦ hnot h.entity, fun _ ↦ ⟨fun hnot ↦ hnot h.type, fun _ ↦ ⟨fun hle ↦ ?_, fun _ ↦ ?_⟩⟩⟩
      · exact absurd h.stream (not_lt.mpr hle)
      · constructor
        · intro hskip
          rw [hskip]
          rfl
        · intro hskip
          rw [Bool.not_eq_true] at hskip
          rw [hskip]
          rfl
    · exact fun _ _ ↦ id
  obtain ⟨isAccepted, k', hrun, rfl⟩ := exists_ok_of_wp hspec
  exact ⟨k', hrun⟩

/-! ## A round of the loop -/

/-- The header was read: the content that is left is the body. -/
structure InRecord (cls : ReaderClass) (r : DataReader) (record : MessageRecord) (rest : List UInt8) :
    Prop where
  inside : InMessage cls r (record.encodeHeader ++ (record.body ++ rest)) record.size
    record.encodeHeader.length record.body.length
  depth_eq : r.depth = 0
  limit : r.bufferEnd + (record.encodeHeader ++ (record.body ++ rest)).length ≤ noContentLimit

variable {record : MessageRecord} {rest : List UInt8}

/-- The content begins with the first byte of the body and ends with the last one. -/
theorem InRecord.ready {r : DataReader} (h : InRecord cls r record rest) :
    Ready cls r r.dataPtr (record.body ++ rest) record.body.length := by
  have hready := h.inside.ready
  rwa [List.drop_left] at hready

theorem drop_size (record : MessageRecord) (rest : List UInt8) :
    (record.encodeHeader ++ (record.body ++ rest)).drop record.size = rest := by
  rw [MessageRecord.size, ← List.append_assoc, List.drop_left' (List.length_append ..)]

theorem InRecord.nextMessage {r : DataReader} (h : InRecord cls r record rest) :
    wp (Reader.nextMessage cls) (fun _ r' ↦ Ahead cls r' rest) (fun _ _ ↦ False) r := by
  have hcomplete : record.size ≤ (record.encodeHeader ++ (record.body ++ rest)).length := by
    simp only [MessageRecord.size, List.length_append]
    omega
  have hspec := h.inside.nextMessage hcomplete h.limit (.inl h.depth_eq)
  rwa [drop_size] at hspec

theorem reads_size (record : MessageRecord) :
    Reads cls (onReader (getUInt32 cls)) (bigEndian 4 record.size) c record.size c :=
  reads_onReader (decodes_loadBE (by decide) (Nat.lt_trans record.size_lt (by decide)))

theorem size_ne_terminator (record : MessageRecord) : ¬ record.size = messageBlockTerminatorRecord :=
  ne_of_lt (Nat.lt_trans record.size_lt (by decide))

/-- The length alone is refused. -/
theorem readMessageInBlock_refuses (hmsg : cls.isMsg) (hahead : Ahead cls c.reader (record.encode ++ rest))
    (hsmall : ¬ cursorMessageHeaderSizeEid32 ≤ record.size) :
    wp (readMessageInBlock cls) (fun _ _ ↦ False)
      (fun error _ ↦ error = .incorrectMessageSize record.size) c := by
  rw [MessageRecord.encode, List.append_assoc] at hahead
  rw [readMessageInBlock]
  apply wp_call ((reads_size record).ahead hahead)
  · intro _ _ h₁
    obtain ⟨rfl, r₁, rfl, hahead₁⟩ := h₁
    have hlength : record.size ≤ (record.encodeHeader ++ record.body ++ rest).length := by
      simp only [MessageRecord.size, List.length_append]
      omega
    have hrefused : ¬ (cursorMessageHeaderSizeEid32 ≤ record.size ∧ record.size < maxMessageSize + 1) :=
      fun hle ↦ hsmall hle.1
    rw [if_neg (size_ne_terminator record), wp_bind, onReader, wp_zoom]
    apply wp_mono (hahead₁.setMessageSize hmsg hlength)
    · intro _ r₂ _
      rw [if_pos hrefused]
      exact rfl
    · exact fun _ _ ↦ False.elim
  · exact fun _ _ ↦ False.elim

theorem readNextMessageInBlock_refuses (hmsg : cls.isMsg)
    (hahead : Ahead cls c.reader (record.encode ++ rest))
    (hsmall : ¬ cursorMessageHeaderSizeEid32 ≤ record.size) :
    wp (readNextMessageInBlock cls) (fun _ _ ↦ False)
      (fun error _ ↦ error = .incorrectMessageSize record.size) c := by
  rw [readNextMessageInBlock, wp_bind, wp_get, readMessagesInBlock]
  apply wp_call (readMessageInBlock_refuses hmsg hahead hsmall)
  · exact fun _ _ ↦ False.elim
  · exact fun _ _ ↦ id

/-- A length that passes the test: the header is read, and the filter decides. -/
theorem readMessageInBlock_spec {isAccepted : Bool} {k : TickCursorImpl} (hmsg : cls.isMsg)
    (hahead : Ahead cls c.reader (record.encode ++ rest))
    (hlarge : cursorMessageHeaderSizeEid32 ≤ record.size)
    (hfilter : filterMessage record.header.entityId record.header.typeId record.header.streamId c.cursor =
      .ok isAccepted k) :
    wp (readMessageInBlock cls)
      (fun found c' ↦ ∃ r', c' = { c with reader := r', cursor := k, lastTimestamp := record.timestamp } ∧
        if isAccepted then found = .accepted record.header ∧ InRecord cls r' record rest
        else found = .skipped ∧ Ahead cls r' rest)
      (fun _ _ ↦ False) c := by
  rw [MessageRecord.encode, List.append_assoc, List.append_assoc] at hahead
  rw [readMessageInBlock]
  apply wp_call ((reads_size record).ahead hahead)
  · intro _ _ h₁
    obtain ⟨rfl, r₁, rfl, hahead₁⟩ := h₁
    have hlength : record.size ≤ (record.encodeHeader ++ (record.body ++ rest)).length := by
      simp only [MessageRecord.size, List.length_append]
      omega
    have hallowed : ¬ ¬ (cursorMessageHeaderSizeEid32 ≤ record.size ∧ record.size < maxMessageSize + 1) :=
      fun hnot ↦ hnot ⟨hlarge, record.size_lt⟩
    rw [if_neg (size_ne_terminator record), wp_bind, onReader, wp_zoom]
    apply wp_mono (hahead₁.setMessageSize hmsg hlength)
    · intro _ r₂ h₂
      obtain ⟨hin₂, hdepth₂, hend₂⟩ := h₂
      rw [if_neg hallowed]
      have hheader : record.encodeHeader.length ≤ record.size := Nat.le_add_right _ _
      apply wp_call ((reads_readHeader record).inMessage hin₂ (List.drop_zero ..) hheader)
      · intro _ _ h₃
        obtain ⟨rfl, r₃, rfl, hmoved₃, hin₃⟩ := h₃
        have hrecord : InRecord cls r₃ record rest := by
          obtain ⟨_, _, _, _, _, _, _, _, rfl⟩ := hmoved₃
          refine ⟨?_, hdepth₂, ?_⟩
          · rwa [Nat.zero_add, MessageRecord.size, Nat.add_sub_cancel_left] at hin₃
          · have hlimit := hahead₁.limit
            dsimp only at hlimit ⊢
            rwa [hend₂]
        rw [wp_bind, onCursor, wp_zoom, wp_ok hfilter]
        cases isAccepted with
        | true => exact ⟨r₃, rfl, rfl, hrecord⟩
        | false =>
          rw [if_neg Bool.false_ne_true, wp_bind, onReader, wp_zoom]
          apply wp_mono hrecord.nextMessage
          · exact fun _ r₄ hahead₄ ↦ ⟨r₄, rfl, rfl, hahead₄⟩
          · exact fun _ _ ↦ False.elim
      · exact fun _ _ ↦ False.elim
    · exact fun _ _ ↦ False.elim
  · exact fun _ _ ↦ False.elim

/-! ## Records that are accepted -/

/-- The record is taken as it should be: one that the filter lets pass is reported, with the body as
the content that is left, and one that the filter skips is behind. -/
def AcceptsRecord (cls : ReaderClass) (c : ReadingCursor) (record : MessageRecord) (rest : List UInt8) :
    Prop :=
  if skips c.cursor record.header then
    ∃ c', readMessageInBlock cls c = .ok .skipped c' ∧ Ahead cls c'.reader rest
  else
    ∃ c', readNextMessageInBlock cls c = .ok (some record.header) c' ∧ InRecord cls c'.reader record rest

/-- A registered record is accepted exactly when its id has 32 bits or its body has at least two
bytes. -/
theorem acceptsRecord_iff (hmsg : cls.isMsg) (hahead : Ahead cls c.reader (record.encode ++ rest))
    (hregistered : Registered (readingState c.cursor).tables record.header) :
    AcceptsRecord cls c record rest ↔ record.isEid32 = true ∨ 2 ≤ record.body.length := by
  obtain ⟨k, hfilter⟩ := filterMessage_registered hregistered
  rw [← record.le_size_iff]
  constructor
  · intro haccepts
    by_contra hsmall
    rw [AcceptsRecord] at haccepts
    split at haccepts
    · have hrefused := readMessageInBlock_refuses hmsg hahead hsmall
      obtain ⟨c', hrun, -⟩ := haccepts
      rwa [wp_ok hrun] at hrefused
    · have hrefused := readNextMessageInBlock_refuses hmsg hahead hsmall
      obtain ⟨c', hrun, -⟩ := haccepts
      rwa [wp_ok hrun] at hrefused
  · intro hlarge
    have hspec := readMessageInBlock_spec hmsg hahead hlarge hfilter
    rw [AcceptsRecord]
    cases hskips : skips c.cursor record.header with
    | true =>
      rw [hskips] at hspec
      obtain ⟨_, _, hrun, r', rfl, rfl, hahead'⟩ := exists_ok_of_wp hspec
      exact ⟨_, hrun, hahead'⟩
    | false =>
      rw [hskips] at hspec
      have hloop : wp (readNextMessageInBlock cls)
          (fun found c' ↦ found = some record.header ∧ InRecord cls c'.reader record rest)
          (fun _ _ ↦ False) c := by
        rw [readNextMessageInBlock, wp_bind, wp_get, readMessagesInBlock]
        apply wp_call hspec
        · intro _ _ h'
          obtain ⟨r', rfl, rfl, hrecord⟩ := h'
          exact ⟨rfl, hrecord⟩
        · exact fun _ _ ↦ False.elim
      obtain ⟨_, c', hrun, rfl, hrecord⟩ := exists_ok_of_wp hloop
      exact ⟨c', hrun, hrecord⟩

end

/-- One instrument and one message type are registered. -/
def registeredCursor : TickCursorImpl :=
  finalState (do Cursor.readEntity 0 [65]; Cursor.readMessageType 0 (some ([84], []))) openedCursor

/-- A cursor in a block. -/
def blockCursor (wire : List UInt8) : ReadingCursor where
  reader := messageReader wire
  cursor := registeredCursor
  useEntityId32 := true
  isWithinMessageBlock := true
  isIdle := false
  readMessageDone := false
  lastTimestamp := 0

/-- A record without a body. -/
def bodylessRecord (isEid32 : Bool) : MessageRecord where
  timestamp := 0
  entityId := 0
  isEid32 := isEid32
  typeId := 0
  streamByte := 255
  body := []
  timestamp_low := by decide
  timestamp_high := by decide
  entityId_lt := by cases isEid32 <;> decide
  size_le := by cases isEid32 <;> decide

theorem bodylessRecord_registered (isEid32 : Bool) :
    Registered (readingState registeredCursor).tables (bodylessRecord isEid32).header := by
  cases isEid32 <;> constructor <;> decide +kernel

theorem acceptsRecord_bodyless :
    AcceptsRecord .msg (blockCursor ((bodylessRecord true).encode ++ [])) (bodylessRecord true) [] :=
  (acceptsRecord_iff rfl (messageReader_ahead (by decide)) (bodylessRecord_registered true)).mpr (.inl rfl)

/-- A record with a short id and no body is refused. -/
theorem bodyless_record_refused :
    ¬ ∀ (cls : ReaderClass) (c : ReadingCursor) (record : MessageRecord) (rest : List UInt8), cls.isMsg →
      Ahead cls c.reader (record.encode ++ rest) →
        Registered (readingState c.cursor).tables record.header → AcceptsRecord cls c record rest := by
  intro hall
  have hahead : Ahead .msg (blockCursor ((bodylessRecord false).encode ++ [])).reader
      ((bodylessRecord false).encode ++ []) := messageReader_ahead (by decide)
  have haccepts := hall .msg _ (bodylessRecord false) [] rfl hahead (bodylessRecord_registered false)
  have hrefused := readNextMessageInBlock_refuses rfl hahead (by decide)
  have hpasses : skips registeredCursor (bodylessRecord false).header = false := by decide +kernel
  have hfound : skips (blockCursor ((bodylessRecord false).encode ++ [])).cursor (bodylessRecord false).header =
      false := hpasses
  rw [AcceptsRecord, hfound] at haccepts
  obtain ⟨c', hrun, -⟩ := haccepts
  rwa [wp_ok hrun] at hrefused

end DxApi.Cursor.Reading
