import DxApi.Cursor.Availability
import DxApi.Cursor.ServerStream

/-!
# `next` and `nextIfAvailable` in any order

Each call begins with the bytes that are left of the message before. `nextIfAvailable` may skip them,
find that nothing has arrived and return: it notes that it has skipped, and the next `nextIfAvailable`
looks at the note. `next` does not, so that it skips once more, where no message is to be skipped and
nothing limits the skip. All other orders of the two calls deliver the messages of the stream, each
once and in order.
-/

namespace DxApi.Cursor.Reading

open Exec Reader

/-! ## Places in the stream -/

/-- The reader is in a message that is followed by `rest`. -/
def BeforeRest (cls : ReaderClass) (rest : List UInt8) (r : DataReader) : Prop :=
  ∃ body n, InsideMessage cls body n r ∧ n ≤ body.length ∧ body.drop n = rest ∧
    r.bufferEnd + body.length ≤ noContentLimit

/-- Every message has an id of 32 bits or two bytes of body, without which its length is refused. -/
def Readable (items : List StreamItem) : Prop :=
  ∀ record, StreamItem.message record ∈ items → record.isEid32 = true ∨ 2 ≤ record.body.length

/-- The stream goes on with `items`, of which `coming` are the messages that pass the filter. -/
structure Position (place : List UInt8 → DataReader → Prop) (fromXML : Name → Option (Name × Name))
    (isWithin isDone : Bool) (items : List StreamItem) (coming : List MessageRecord) (c : ReadingCursor) :
    Prop where
  reader : place (encodeStream items) c.reader
  isWithin_eq : c.isWithinMessageBlock = isWithin
  isDone_eq : c.readMessageDone = isDone
  isInterrupted_eq : c.cursor.isInterrupted = false
  passing_eq : passing fromXML c.useEntityId32 isWithin items c.cursor = some coming
  readable : Readable items

/-- No message is open. -/
abbrev Facing (cls : ReaderClass) := Position fun rest r ↦ Ahead cls r rest

/-- What a search for a message finds when it goes past an item or more. -/
def Finds (cls : ReaderClass) (fromXML : Name → Option (Name × Name)) (n : ℕ) (coming : List MessageRecord) :
    Option MessageHeader → ReadingCursor → Prop
  | some msg, c => ∃ record later items, coming = record :: later ∧ msg = record.header ∧
      Position (fun rest r ↦ InRecord cls r record rest) fromXML true false items later c
  | none, c => ∃ items, streamLength items < n ∧ Facing cls fromXML false false items coming c

section

variable {cls : ReaderClass} {fromXML : Name → Option (Name × Name)} {isWithin isDone : Bool}
  {items : List StreamItem} {coming : List MessageRecord} {c : ReadingCursor} {n : ℕ}

theorem Finds.mono {m : ℕ} {found : Option MessageHeader} (h : Finds cls fromXML n coming found c) (hle : n ≤ m) :
    Finds cls fromXML m coming found c := by
  cases found with
  | some msg => exact h
  | none =>
    obtain ⟨items, hlt, hfacing⟩ := h
    exact ⟨items, hlt.trans_le hle, hfacing⟩

theorem Readable.tail {item : StreamItem} (h : Readable (item :: items)) : Readable items :=
  fun record hmem ↦ h record (List.mem_cons_of_mem item hmem)

/-- What is ahead bounds the rounds of a loop. -/
theorem Position.length_le (h : Facing cls fromXML isWithin isDone items coming c) :
    streamLength items ≤ bytesAhead c := h.reader.length_le

theorem Position.withState {place : List UInt8 → DataReader → Prop}
    (h : Position place fromXML isWithin isDone items coming c) (state : CursorState) :
    Position place fromXML isWithin isDone items coming { c with cursor := { c.cursor with state := state } } where
  reader := h.reader
  isWithin_eq := h.isWithin_eq
  isDone_eq := h.isDone_eq
  isInterrupted_eq := h.isInterrupted_eq
  passing_eq := (passing_alike ⟨state, rfl, h.isInterrupted_eq⟩).trans h.passing_eq
  readable := h.readable

/-! ## One item -/

/-- What a round of the loop in a block finds. -/
def RoundFinds (cls : ReaderClass) (fromXML : Name → Option (Name × Name)) (n : ℕ)
    (coming : List MessageRecord) : BlockRound → ReadingCursor → Prop
  | .terminated, c => Finds cls fromXML n coming none c
  | .skipped, c => ∃ items, streamLength items < n ∧ Facing cls fromXML true false items coming c
  | .accepted msg, c => Finds cls fromXML n coming (some msg) c

theorem readMessageInBlock_finds (hmsg : cls.isMsg) (h : Facing cls fromXML true false items coming c) :
    wp (readMessageInBlock cls) (RoundFinds cls fromXML (streamLength items) coming)
      (fun _ _ ↦ coming = []) c := by
  have hpassing := h.passing_eq
  have hahead := h.reader
  cases items with
  | nil =>
    simp only [passing, Option.some.injEq] at hpassing
    rw [readMessageInBlock, wp_bind, onReader, wp_zoom]
    apply wp_mono (hahead.load_nil (by decide) (by decide))
    · exact fun _ _ ↦ False.elim
    · exact fun _ _ _ ↦ hpassing.symm
  | cons item items =>
    cases item with
    | control record => simp only [passing, reduceCtorEq] at hpassing
    | serverError code text => simp only [passing, reduceCtorEq] at hpassing
    | blockStart => simp only [passing, reduceCtorEq] at hpassing
    | message record =>
      have hlarge := record.le_size_iff.mpr (h.readable record List.mem_cons_self)
      have hagree := agree_filterMessage record.header.entityId record.header.typeId record.header.streamId
        (Alike.refl h.isInterrupted_eq)
      simp only [passing] at hpassing
      cases hrun : filterMessage record.header.entityId record.header.typeId record.header.streamId c.cursor with
      | error error k => simp only [hrun, reduceCtorEq] at hpassing
      | ok isAccepted k =>
        obtain ⟨_, -, _, -, hopen⟩ := hagree.of_ok hrun
        apply wp_mono (readMessageInBlock_spec hmsg hahead hlarge hrun)
        · intro found c' h'
          obtain ⟨r', rfl, hfound⟩ := h'
          cases isAccepted with
          | true =>
            obtain ⟨rfl, hrecord⟩ := hfound
            simp only [hrun, Option.map_eq_some_iff] at hpassing
            obtain ⟨later, hlater, rfl⟩ := hpassing
            exact ⟨record, later, items, rfl, rfl,
              hrecord, h.isWithin_eq, h.isDone_eq, hopen, hlater, h.readable.tail⟩
          | false =>
            obtain ⟨rfl, hrest⟩ := hfound
            simp only [hrun] at hpassing
            exact ⟨items, streamLength_lt_cons _ items,
              hrest, h.isWithin_eq, h.isDone_eq, hopen, hpassing, h.readable.tail⟩
        · exact fun _ _ ↦ False.elim
    | blockEnd =>
      have hread : Reads cls (onReader (getUInt32 cls)) StreamItem.blockEnd.encode c messageBlockTerminatorRecord c :=
        reads_onReader (decodes_loadBE (by decide) (by decide))
      simp only [passing] at hpassing
      rw [readMessageInBlock]
      apply wp_call (hread.ahead hahead)
      · intro _ _ h₁
        obtain ⟨rfl, r₁, rfl, hrest⟩ := h₁
        rw [if_pos rfl, wp_bind, wp_modify, wp_pure]
        exact ⟨items, streamLength_lt_cons _ items,
          hrest, rfl, h.isDone_eq, h.isInterrupted_eq, hpassing, h.readable.tail⟩
      · exact fun _ _ ↦ False.elim

/-- What a record leaves: it may have opened a block, unless it has ended the cursor. -/
def RecordFinds (cls : ReaderClass) (fromXML : Name → Option (Name × Name)) (n : ℕ)
    (coming : List MessageRecord) (goesOn : Bool) (c : ReadingCursor) : Prop :=
  ∃ isWithin items, streamLength items < n ∧ Facing cls fromXML isWithin false items coming c ∧
    (goesOn = false → isWithin = false)

theorem readNextRecord_finds (h : Facing cls fromXML false false items coming c) :
    wp (readNextRecord cls fromXML) (RecordFinds cls fromXML (streamLength items) coming)
      (fun _ _ ↦ coming = []) c := by
  have hpassing := h.passing_eq
  have hahead := h.reader
  cases items with
  | nil =>
    simp only [passing, Option.some.injEq] at hpassing
    apply wp_mono (readNextRecord_nothing hahead)
    · exact fun _ _ ↦ False.elim
    · exact fun _ _ _ ↦ hpassing.symm
  | cons item items =>
    cases item with
    | control record =>
      simp only [passing] at hpassing
      split at hpassing
      · next hexpected =>
        have hagree := agree_take fromXML record (Alike.refl h.isInterrupted_eq)
        cases hrun : record.take fromXML c.cursor with
        | error error k => simp only [hrun, reduceCtorEq] at hpassing
        | ok goesOn k =>
          obtain ⟨_, -, _, -, hopen⟩ := hagree.of_ok hrun
          simp only [hrun] at hpassing
          apply wp_mono ((reads_control hexpected hrun).ahead hahead)
          · intro _ c' h'
            obtain ⟨rfl, r', rfl, hrest⟩ := h'
            exact ⟨false, items, streamLength_lt_cons _ items,
              ⟨hrest, h.isWithin_eq, h.isDone_eq, hopen, hpassing, h.readable.tail⟩, fun _ ↦ rfl⟩
          · exact fun _ _ ↦ False.elim
      · cases hpassing
    | serverError code text =>
      cases items with
      | nil =>
        simp only [passing, Option.some.injEq] at hpassing
        apply wp_mono (readNextRecord_serverError hahead)
        · exact fun _ _ ↦ False.elim
        · exact fun _ _ _ ↦ hpassing.symm
      | cons item items => simp only [passing, reduceCtorEq] at hpassing
    | blockStart =>
      simp only [passing] at hpassing
      apply wp_mono (reads_blockStart.ahead hahead)
      · intro _ c' h'
        obtain ⟨rfl, r', rfl, hrest⟩ := h'
        exact ⟨true, items, streamLength_lt_cons _ items,
          ⟨hrest, rfl, h.isDone_eq, h.isInterrupted_eq, hpassing, h.readable.tail⟩,
          fun hends ↦ absurd hends.symm Bool.false_ne_true⟩
      · exact fun _ _ ↦ False.elim
    | message record => simp only [passing, reduceCtorEq] at hpassing
    | blockEnd => simp only [passing, reduceCtorEq] at hpassing

/-! ## The loops -/

theorem readMessagesInBlock_finds {fuel : ℕ} (hmsg : cls.isMsg) (h : Facing cls fromXML true false items coming c)
    (hfuel : streamLength items < fuel) :
    wp (readMessagesInBlock cls fuel) (Finds cls fromXML (streamLength items) coming)
      (fun _ _ ↦ coming = []) c := by
  induction fuel generalizing items c with
  | zero => exact absurd hfuel (Nat.not_lt_zero _)
  | succ fuel ih =>
    apply wp_call (readMessageInBlock_finds hmsg h)
    · intro found c' hfound
      cases found with
      | terminated => exact hfound
      | accepted msg => exact hfound
      | skipped =>
        obtain ⟨items', hlt, h'⟩ := hfound
        apply wp_mono (ih h' (by omega))
        · exact fun _ _ hfinds ↦ hfinds.mono hlt.le
        · exact fun _ _ ↦ id
    · exact fun _ _ ↦ id

theorem readNextMessageInBlock_finds (hmsg : cls.isMsg) (h : Facing cls fromXML true false items coming c) :
    wp (readNextMessageInBlock cls) (Finds cls fromXML (streamLength items) coming)
      (fun _ _ ↦ coming = []) c := by
  rw [readNextMessageInBlock, wp_bind, wp_get]
  exact readMessagesInBlock_finds hmsg h (Nat.lt_succ_of_le h.length_le)

theorem endReading_finds (h : Facing cls fromXML false false items coming c) (hn : streamLength items < n) :
    wp endReading (Finds cls fromXML n coming) (fun _ _ ↦ coming = []) c := by
  rw [endReading, wp_bind, wp_modify, wp_pure]
  exact ⟨items, hn, h.withState .ended⟩

/-- A record outside a block, and what follows it. -/
theorem readNextRecord_bind_finds {next : Bool → ReadingM (Option MessageHeader)}
    (h : Facing cls fromXML false false items coming c)
    (hnext : ∀ isWithin items' c', streamLength items' < streamLength items →
      Facing cls fromXML isWithin false items' coming c' →
      wp (next true) (Finds cls fromXML (streamLength items) coming) (fun _ _ ↦ coming = []) c')
    (hends : next false = endReading) :
    wp (readNextRecord cls fromXML >>= next) (Finds cls fromXML (streamLength items) coming)
      (fun _ _ ↦ coming = []) c := by
  apply wp_call (readNextRecord_finds h)
  · intro goesOn c' hfound
    obtain ⟨isWithin, items', hlt, h', hwithin⟩ := hfound
    cases goesOn with
    | true => exact hnext isWithin items' c' hlt h'
    | false =>
      obtain rfl := hwithin rfl
      rw [hends]
      exact endReading_finds h' hlt
  · exact fun _ _ ↦ id

theorem readMessages_finds {fuel : ℕ} (hmsg : cls.isMsg) (h : Facing cls fromXML isWithin false items coming c)
    (hfuel : streamLength items < fuel) :
    wp (readMessages cls fromXML fuel) (Finds cls fromXML (streamLength items) coming)
      (fun _ _ ↦ coming = []) c := by
  induction fuel generalizing isWithin items c with
  | zero => exact absurd hfuel (Nat.not_lt_zero _)
  | succ fuel ih =>
    have hagain : ∀ isWithin items' c', streamLength items' < streamLength items →
        Facing cls fromXML isWithin false items' coming c' →
          wp (readMessages cls fromXML fuel) (Finds cls fromXML (streamLength items) coming)
            (fun _ _ ↦ coming = []) c' := by
      intro isWithin items' c' hlt h'
      apply wp_mono (ih h' (by omega))
      · exact fun _ _ hfinds ↦ hfinds.mono hlt.le
      · exact fun _ _ ↦ id
    rw [readMessages, wp_bind, wp_get]
    cases isWithin with
    | true =>
      rw [if_pos h.isWithin_eq]
      apply wp_call (readNextMessageInBlock_finds hmsg h)
      · intro found c' hfound
        cases found with
        | some msg => exact hfound
        | none =>
          obtain ⟨items', hlt, h'⟩ := hfound
          exact hagain false items' c' hlt h'
      · exact fun _ _ ↦ id
    | false =>
      rw [if_neg (Bool.eq_false_iff.mp h.isWithin_eq)]
      exact readNextRecord_bind_finds h hagain rfl

theorem readRecordsNonBlock_finds {fuel : ℕ} (hmsg : cls.isMsg) (h : Facing cls fromXML false false items coming c)
    (hfuel : streamLength items < fuel) :
    wp (readRecordsNonBlock cls fromXML fuel) (Finds cls fromXML (streamLength items) coming)
      (fun _ _ ↦ coming = []) c := by
  induction fuel generalizing items c with
  | zero => exact absurd hfuel (Nat.not_lt_zero _)
  | succ fuel ih =>
    refine readNextRecord_bind_finds h ?_ rfl
    intro isWithin items' c' hlt h'
    rw [if_pos rfl, wp_bind, wp_get]
    cases isWithin with
    | true =>
      rw [if_pos h'.isWithin_eq]
      apply wp_mono (readNextMessageInBlock_finds hmsg h')
      · exact fun _ _ hfinds ↦ hfinds.mono hlt.le
      · exact fun _ _ ↦ id
    | false =>
      rw [if_neg (Bool.eq_false_iff.mp h'.isWithin_eq), wp_ite]
      constructor
      · exact fun _ ↦ ⟨items', hlt, h'⟩
      · intro _
        apply wp_mono (ih h' (by omega))
        · exact fun _ _ hfinds ↦ hfinds.mono hlt.le
        · exact fun _ _ ↦ id

theorem readNextMessageNonBlock_finds (hmsg : cls.isMsg) (h : Facing cls fromXML isWithin false items coming c) :
    wp (readNextMessageNonBlock cls fromXML) (Finds cls fromXML (streamLength items) coming)
      (fun _ _ ↦ coming = []) c := by
  rw [readNextMessageNonBlock, wp_bind, wp_get]
  cases isWithin with
  | true =>
    rw [if_pos h.isWithin_eq]
    exact readNextMessageInBlock_finds hmsg h
  | false =>
    rw [if_neg (Bool.eq_false_iff.mp h.isWithin_eq)]
    exact readRecordsNonBlock_finds hmsg h (Nat.lt_succ_of_le h.length_le)

/-! ## A call -/

/-- Between two messages, in a block when `nextIfAvailable` has gone there, or in a message. -/
inductive Standing (cls : ReaderClass) (fromXML : Name → Option (Name × Name)) (items : List StreamItem)
    (coming : List MessageRecord) (c : ReadingCursor) : Prop
  | between (isDone : Bool) (h : Facing cls fromXML isDone isDone items coming c)
  | inside (h : Position (BeforeRest cls) fromXML true false items coming c)

/-- No container of the message is left open, or none that misleads the skip. -/
def Closed (r : DataReader) : Prop := r.depth = 0 ∨ eOfsAt r r.depth = eOfsAt r 0

theorem BeforeRest.nextMessage {rest : List UInt8} {r : DataReader} (h : BeforeRest cls rest r) (hclosed : Closed r) :
    wp (nextMessage cls) (fun _ r' ↦ Ahead cls r' rest) (fun _ _ ↦ False) r := by
  obtain ⟨body, n, ⟨consumed, left, hin⟩, hcomplete, rfl, hlimit⟩ := h
  exact hin.nextMessage hcomplete hlimit hclosed

/-- A message is skipped. -/
theorem nextMessage_facing (h : Position (BeforeRest cls) fromXML true false items coming c)
    (hclosed : Closed c.reader) :
    wp (onReader (nextMessage cls)) (fun _ c' ↦ Facing cls fromXML true false items coming c')
      (fun _ _ ↦ False) c := by
  rw [onReader, wp_zoom]
  apply wp_mono (h.reader.nextMessage hclosed)
  · exact fun _ r hr ↦ ⟨hr, h.isWithin_eq, h.isDone_eq, h.isInterrupted_eq, h.passing_eq, h.readable⟩
  · exact fun _ _ ↦ id

/-- Nothing is there for a call that does not wait. -/
def IsIdle (arrived : ℕ) (r : DataReader) : Prop :=
  arrived = 0 ∧ (nBytesAvailable r = 0 ∨ nBytesAvailableInStream r = 0)

/-- A call gives the first of the messages that are to come, or none of them: then it has gone past a
part of the stream, or there was nothing to be read. -/
def Gives (cls : ReaderClass) (fromXML : Name → Option (Name × Name)) (items : List StreamItem)
    (coming : List MessageRecord) (arrived : ℕ) : Option MessageHeader → ReadingCursor → Prop
  | some msg, c => Finds cls fromXML (streamLength items) coming (some msg) c
  | none, c => ∃ items', Standing cls fromXML items' coming c ∧
      (streamLength items' < streamLength items ∨ items' = items ∧ IsIdle arrived c.reader)

theorem Finds.gives {arrived : ℕ} {found : Option MessageHeader}
    (h : Finds cls fromXML (streamLength items) coming found c) : Gives cls fromXML items coming arrived found c := by
  cases found with
  | some msg => exact h
  | none =>
    obtain ⟨items', hlt, h'⟩ := h
    exact ⟨items', .between false h', .inl hlt⟩

theorem readNextMessage_gives {arrived : ℕ} (hmsg : cls.isMsg) (h : Standing cls fromXML items coming c)
    (hclosed : Closed c.reader) (hread : ¬ (c.isWithinMessageBlock = true ∧ c.readMessageDone = true)) :
    wp (readNextMessage cls fromXML) (Gives cls fromXML items coming arrived) (fun _ _ ↦ coming = []) c := by
  have hmessages : ∀ isWithin c, Facing cls fromXML isWithin false items coming c →
      wp (do readMessages cls fromXML (bytesAhead (← get) + 1)) (Gives cls fromXML items coming arrived)
        (fun _ _ ↦ coming = []) c := by
    intro isWithin c h
    rw [wp_bind, wp_get]
    apply wp_mono (readMessages_finds hmsg h (Nat.lt_succ_of_le h.length_le))
    · exact fun _ _ ↦ Finds.gives
    · exact fun _ _ ↦ id
  rw [readNextMessage, wp_bind, wp_get]
  cases h with
  | between isDone h =>
    cases isDone with
    | false =>
      rw [if_neg (Bool.eq_false_iff.mp h.isWithin_eq)]
      exact hmessages false c h
    | true => exact absurd ⟨h.isWithin_eq, h.isDone_eq⟩ hread
  | inside h =>
    rw [if_pos h.isWithin_eq]
    apply wp_call (nextMessage_facing h hclosed)
    · exact fun _ c' h' ↦ hmessages true c' h'
    · exact fun _ _ ↦ False.elim

theorem nextNonBlocking_gives {arrived : ℕ} (hmsg : cls.isMsg) (h : Standing cls fromXML items coming c)
    (hclosed : Closed c.reader) :
    wp (nextNonBlocking cls fromXML arrived) (Gives cls fromXML items coming arrived)
      (fun _ _ ↦ coming = []) c := by
  have hread : ∀ isDone c, Facing cls fromXML isDone isDone items coming c → wp (do
      let c ← get
      if nBytesAvailableInStream c.reader ≤ 0 ∧ arrived ≤ 0 then
        return none
      else
        modify fun c ↦ { c with readMessageDone := false }
        readNextMessageNonBlock cls fromXML) (Gives cls fromXML items coming arrived)
          (fun _ _ ↦ coming = []) c := by
    intro isDone c h
    rw [wp_bind, wp_get, wp_ite]
    constructor
    · intro hnothing
      exact ⟨items, .between isDone h, .inr ⟨rfl, Nat.le_zero.mp hnothing.2, .inr (Nat.le_zero.mp hnothing.1)⟩⟩
    · intro _
      rw [wp_bind, wp_modify]
      have hfacing : Facing cls fromXML isDone false items coming { c with readMessageDone := false } :=
        ⟨h.reader, h.isWithin_eq, rfl, h.isInterrupted_eq, h.passing_eq, h.readable⟩
      apply wp_mono (readNextMessageNonBlock_finds hmsg hfacing)
      · exact fun _ _ ↦ Finds.gives
      · exact fun _ _ ↦ id
  rw [nextNonBlocking, wp_bind, wp_get]
  cases h with
  | between isDone h =>
    have hskipped : ¬ (c.isWithinMessageBlock = true ∧ ¬ c.readMessageDone = true) := by
      rw [h.isWithin_eq, h.isDone_eq]
      exact and_not_self
    rw [if_neg hskipped]
    exact hread isDone c h
  | inside h =>
    have hunread : c.isWithinMessageBlock = true ∧ ¬ c.readMessageDone = true := by
      rw [h.isWithin_eq, h.isDone_eq]
      exact ⟨rfl, Bool.false_ne_true⟩
    rw [if_pos hunread]
    apply wp_call (nextMessage_facing h hclosed)
    · intro _ c' h'
      rw [wp_bind, wp_modify]
      exact hread true _ ⟨h'.reader, h'.isWithin_eq, rfl, h'.isInterrupted_eq, h'.passing_eq, h'.readable⟩
    · exact fun _ _ ↦ False.elim

theorem Standing.withState (h : Standing cls fromXML items coming c) (state : CursorState) :
    Standing cls fromXML items coming { c with cursor := { c.cursor with state := state } } := by
  cases h with
  | between isDone h => exact .between isDone (h.withState state)
  | inside h => exact .inside (h.withState state)

theorem Standing.isInterrupted_eq (h : Standing cls fromXML items coming c) : c.cursor.isInterrupted = false := by
  cases h with
  | between isDone h => exact h.isInterrupted_eq
  | inside h => exact h.isInterrupted_eq

theorem next_gives {isNonBlocking : Bool} (arrived : ℕ) (hmsg : cls.isMsg)
    (h : Standing cls fromXML items coming c) (hclosed : Closed c.reader)
    (hread : isNonBlocking = false → ¬ (c.isWithinMessageBlock = true ∧ c.readMessageDone = true)) :
    wp (next cls fromXML isNonBlocking arrived) (Gives cls fromXML items coming arrived)
      (fun _ _ ↦ coming = []) c := by
  have hgoes : ∀ state, wp
      (if isNonBlocking then nextNonBlocking cls fromXML arrived else readNextMessage cls fromXML)
      (Gives cls fromXML items coming arrived) (fun _ _ ↦ coming = [])
      { c with cursor := { c.cursor with state := state } } := by
    intro state
    cases isNonBlocking with
    | true => exact nextNonBlocking_gives hmsg (h.withState state) hclosed
    | false => exact readNextMessage_gives hmsg (h.withState state) hclosed (hread rfl)
  have hopen : ¬ c.cursor.isInterrupted = true := Bool.eq_false_iff.mp h.isInterrupted_eq
  rw [next, wp_bind, resume, wp_bind, wp_get, wp_ite]
  constructor
  · intro _
    rw [if_neg hopen, wp_ite]
    constructor
    · intro hnothing
      exact ⟨items, h, .inr ⟨rfl, hnothing.2.2, .inl hnothing.2.1⟩⟩
    · exact fun _ ↦ hgoes .started
  · exact fun _ ↦ hgoes c.cursor.state

end

/-! ## Runs -/

/-- A call of `next` or `nextIfAvailable`, and what the client reads of the message that it gives. -/
structure NextCall where
  isNonBlocking : Bool
  arrived : ℕ
  decoded : List MessageCall

/-- The cursor was reached from `c₀` by calls that have returned these messages. -/
inductive Reached (cls : ReaderClass) (fromXML : Name → Option (Name × Name))
    (isAdmitted : ReadingCursor → NextCall → Prop) (c₀ : ReadingCursor) :
    List MessageHeader → ReadingCursor → Prop
  | start : Reached cls fromXML isAdmitted c₀ [] c₀
  | found {returned : List MessageHeader} {c c' : ReadingCursor} {call : NextCall} {msg : MessageHeader}
      {r : DataReader}
      (h : Reached cls fromXML isAdmitted c₀ returned c) (hadmitted : isAdmitted c call)
      (hnext : next cls fromXML call.isNonBlocking call.arrived c = .ok (some msg) c')
      (hdecoded : runCalls cls call.decoded c'.reader = .ok () r) :
      Reached cls fromXML isAdmitted c₀ (returned ++ [msg]) { c' with reader := r }
  | nothing {returned : List MessageHeader} {c c' : ReadingCursor} {call : NextCall}
      (h : Reached cls fromXML isAdmitted c₀ returned c) (hadmitted : isAdmitted c call)
      (hnext : next cls fromXML call.isNonBlocking call.arrived c = .ok none c') :
      Reached cls fromXML isAdmitted c₀ returned c'

/-- A cursor that was just opened, with a valid stream ahead of which these messages pass the filter. -/
structure OpenedFor (cls : ReaderClass) (fromXML : Name → Option (Name × Name)) (items : List StreamItem)
    (messages : List MessageRecord) (c : ReadingCursor) : Prop where
  reader : Ahead cls c.reader (encodeStream items)
  isWithin_eq : c.isWithinMessageBlock = false
  isDone_eq : c.readMessageDone = false
  isInterrupted_eq : c.cursor.isInterrupted = false
  passing_eq : passing fromXML c.useEntityId32 false items c.cursor = some messages

/-- The bytes of the stream that are ahead, when the message that is open was left. -/
def StreamAhead (cls : ReaderClass) (rest : List UInt8) (r : DataReader) : Prop :=
  Ahead cls r rest ∨ BeforeRest cls rest r

/-- What a call returns that neither loses nor repeats a message: the first of the messages that are to
come, with the reader at its body, or none, after a part of the stream or where there was nothing. -/
def Takes (cls : ReaderClass) (rest : List UInt8) (coming : List MessageRecord) (arrived : ℕ) :
    Option MessageHeader → ReadingCursor → Prop
  | some msg, c => ∃ record data, coming.head? = some record ∧ msg = record.header ∧
      Ready cls c.reader c.reader.dataPtr (record.body ++ data) record.body.length
  | none, c => IsIdle arrived c.reader ∨ ∃ rest', rest'.length < rest.length ∧ StreamAhead cls rest' c.reader

/-- The calls have returned the first of the messages, in order, and the next one goes on with the
others; it throws only when there are none. -/
structure Delivers (cls : ReaderClass) (fromXML : Name → Option (Name × Name))
    (isAdmitted : ReadingCursor → NextCall → Prop) (messages : List MessageRecord) (returned : List MessageHeader)
    (c : ReadingCursor) : Prop where
  returned_eq : returned = (messages.take returned.length).map MessageRecord.header
  next : ∃ rest, StreamAhead cls rest c.reader ∧ ∀ call, isAdmitted c call →
    wp (next cls fromXML call.isNonBlocking call.arrived) (Takes cls rest (messages.drop returned.length) call.arrived)
      (fun _ _ ↦ messages.drop returned.length = []) c

/-- `next` is not called where `nextIfAvailable` has skipped a message and found nothing behind it, and
the client has closed the containers of the message before. -/
structure Undisturbed (c : ReadingCursor) (call : NextCall) : Prop where
  waits : call.isNonBlocking = false → ¬ (c.isWithinMessageBlock = true ∧ c.readMessageDone = true)
  closed : Closed c.reader

section

variable {cls : ReaderClass} {fromXML : Name → Option (Name × Name)} {items : List StreamItem}
  {coming messages : List MessageRecord} {c c₀ : ReadingCursor}

theorem Standing.streamAhead (h : Standing cls fromXML items coming c) :
    StreamAhead cls (encodeStream items) c.reader := by
  cases h with
  | between isDone h => exact .inl h.reader
  | inside h => exact .inr h.reader

theorem InRecord.beforeRest {r : DataReader} {record : MessageRecord} {rest : List UInt8}
    (h : InRecord cls r record rest) : BeforeRest cls rest r := by
  refine ⟨_, record.size, ⟨_, _, h.inside⟩, ?_, drop_size record rest, h.limit⟩
  simp only [MessageRecord.size, List.length_append]
  omega

/-- Wherever the client stops in a message, what follows it is the same. -/
theorem runCalls_beforeRest (calls : List MessageCall) {rest : List UInt8} :
    Leads (BeforeRest cls rest) (runCalls cls calls) fun _ ↦ BeforeRest cls rest := by
  intro r hr
  obtain ⟨body, n, hin, hcomplete, hrest, hlimit⟩ := hr
  apply wp_mono (insideMessage_frame (runCalls_inside calls hin) fun _ _ ↦ runCalls_unsent cls calls)
  · intro _ r' h'
    obtain ⟨hin', -, hend⟩ := h'
    refine ⟨body, n, hin', hcomplete, hrest, ?_⟩
    rwa [hend]
  · exact fun _ _ _ ↦ trivial

/-- After every call the messages that were not returned are to come. -/
theorem Reached.standing (hmsg : cls.isMsg) (hstart : Standing cls fromXML items messages c₀)
    {returned : List MessageHeader} (h : Reached cls fromXML Undisturbed c₀ returned c) :
    returned = (messages.take returned.length).map MessageRecord.header ∧
      ∃ items', Standing cls fromXML items' (messages.drop returned.length) c := by
  induction h with
  | start => exact ⟨rfl, items, hstart⟩
  | @found returned c c' call msg r h hadmitted hnext hdecoded ih =>
    obtain ⟨hreturned, items', hstanding⟩ := ih
    have hgives := next_gives call.arrived hmsg hstanding hadmitted.closed hadmitted.waits
    rw [wp_ok hnext] at hgives
    obtain ⟨record, later, items'', hcoming, rfl, hposition⟩ := hgives
    have hlength : (returned ++ [record.header]).length = returned.length + 1 := List.length_append
    have hlater : messages.drop (returned.length + 1) = later := by
      rw [← List.tail_drop, hcoming, List.tail_cons]
    have hbody := (runCalls_beforeRest call.decoded).of_ok hposition.reader.beforeRest hdecoded
    rw [hlength, hlater]
    refine ⟨?_, items'', .inside ⟨hbody, hposition.isWithin_eq, hposition.isDone_eq, hposition.isInterrupted_eq,
      hposition.passing_eq, hposition.readable⟩⟩
    have htake : messages.take (returned.length + 1) = messages.take returned.length ++ [record] := by
      have hat : messages[returned.length]? = some record := by
        rw [← List.head?_drop, hcoming, List.head?_cons]
      rw [List.take_add_one, hat, Option.toList_some]
    rw [htake, List.map_append, ← hreturned, List.map_singleton]
  | @nothing returned c c' call h hadmitted hnext ih =>
    obtain ⟨hreturned, items', hstanding⟩ := ih
    have hgives := next_gives call.arrived hmsg hstanding hadmitted.closed hadmitted.waits
    rw [wp_ok hnext] at hgives
    obtain ⟨items'', hstanding', -⟩ := hgives
    exact ⟨hreturned, items'', hstanding'⟩

/-- In every run in which `next` is not called where `nextIfAvailable` has skipped a message, and in
which every container is closed, the calls deliver the messages of the stream. -/
theorem calls_deliver (hmsg : cls.isMsg) (hopened : OpenedFor cls fromXML items messages c₀)
    (hreadable : Readable items) {returned : List MessageHeader}
    (hreached : Reached cls fromXML Undisturbed c₀ returned c) :
    Delivers cls fromXML Undisturbed messages returned c := by
  have hstart : Facing cls fromXML false false items messages c₀ := ⟨hopened.reader, hopened.isWithin_eq,
    hopened.isDone_eq, hopened.isInterrupted_eq, hopened.passing_eq, hreadable⟩
  obtain ⟨hreturned, items', hstanding⟩ := hreached.standing hmsg (.between false hstart)
  refine ⟨hreturned, encodeStream items', hstanding.streamAhead, fun call hadmitted ↦ ?_⟩
  apply wp_mono (next_gives call.arrived hmsg hstanding hadmitted.closed hadmitted.waits)
  · intro found c' hgives
    cases found with
    | some msg =>
      obtain ⟨record, later, items'', hcoming, hheader, hposition⟩ := hgives
      exact ⟨record, encodeStream items'', by rw [hcoming, List.head?_cons], hheader, hposition.reader.ready⟩
    | none =>
      obtain ⟨items'', hstanding', hshorter | ⟨-, hidle⟩⟩ := hgives
      · exact .inr ⟨encodeStream items'', hshorter, hstanding'.streamAhead⟩
      · exact .inl hidle
  · exact fun _ _ ↦ id

end

/-! ## A message that is skipped twice -/

/-- A block with two messages. -/
def twoMessages : List StreamItem :=
  [.blockStart, .message (bodylessRecord true), .message (bodylessRecord true), .blockEnd]

/-- The first read delivers two bytes more than the first message. -/
def twoMessagesCursor : ReadingCursor :=
  { openedReading registeredCursor (encodeStream twoMessages) with
    reader := { messageReader (encodeStream twoMessages) with s := ⟨encodeStream twoMessages, [20]⟩ } }

/-- After `next`. -/
def afterFirst : ReadingCursor := finalState (next .msg (fun _ ↦ none) false 0) twoMessagesCursor

/-- After a `nextIfAvailable` that has found nothing. -/
def afterNothing : ReadingCursor := finalState (next .msg (fun _ ↦ none) true 0) afterFirst

theorem twoMessagesCursor_opened :
    OpenedFor .msg (fun _ ↦ none) twoMessages [bodylessRecord true, bodylessRecord true] twoMessagesCursor where
  reader := by
    have hahead : Ahead .msg (messageReader (encodeStream twoMessages)) (encodeStream twoMessages) :=
      messageReader_ahead (by decide)
    obtain ⟨left, hready, hleft⟩ := hahead.ready
    obtain ⟨hstart, hstop, hend, hbytes⟩ := (at_plain (by decide)).mp hready.at_rest
    exact ⟨⟨left, ⟨(at_plain (by decide)).mpr ⟨hstart, hstop, hend, hbytes⟩, hready.dataEnd_eq,
      hready.contentEnd_eq⟩, hleft⟩, hahead.roomy, hahead.limit⟩
  isWithin_eq := rfl
  isDone_eq := rfl
  isInterrupted_eq := by decide +kernel
  passing_eq := by decide +kernel

theorem twoMessages_readable : Readable twoMessages := by
  intro record hmem
  simp only [twoMessages, List.mem_cons, reduceCtorEq, StreamItem.message.injEq, List.not_mem_nil, or_false,
    false_or, or_self] at hmem
  rw [hmem]
  exact .inl rfl

theorem next_first : next .msg (fun _ ↦ none) false 0 twoMessagesCursor =
    .ok (some (bodylessRecord true).header) afterFirst :=
  eq_ok_of_valueOf (by decide +kernel)

theorem next_nothing : next .msg (fun _ ↦ none) true 0 afterFirst = .ok none afterNothing :=
  eq_ok_of_valueOf (by decide +kernel)

theorem afterNothing_reached {isAdmitted : ReadingCursor → NextCall → Prop}
    (hfirst : isAdmitted twoMessagesCursor ⟨false, 0, []⟩) (hnothing : isAdmitted afterFirst ⟨true, 0, []⟩) :
    Reached .msg (fun _ ↦ none) isAdmitted twoMessagesCursor [(bodylessRecord true).header] afterNothing := by
  have hreached : Reached .msg (fun _ ↦ none) isAdmitted twoMessagesCursor [(bodylessRecord true).header] afterFirst :=
    Reached.start.found hfirst next_first rfl
  exact hreached.nothing hnothing next_nothing

theorem calls_deliver_twoMessages :
    Delivers .msg (fun _ ↦ none) Undisturbed [bodylessRecord true, bodylessRecord true]
      [(bodylessRecord true).header] afterNothing := by
  have hfirst : Undisturbed twoMessagesCursor ⟨false, 0, []⟩ := ⟨fun _ ↦ by decide, .inl rfl⟩
  have hnothing : Undisturbed afterFirst ⟨true, 0, []⟩ :=
    ⟨fun habs ↦ absurd habs.symm Bool.false_ne_true, .inl (by decide +kernel)⟩
  exact calls_deliver rfl twoMessagesCursor_opened twoMessages_readable (afterNothing_reached hfirst hnothing)

/-- A `next` that comes after it skips all that is left of the stream. -/
theorem next_loses :
    ¬ ∀ (cls : ReaderClass) (fromXML : Name → Option (Name × Name)) (items : List StreamItem)
      (messages : List MessageRecord) (c₀ c : ReadingCursor) (returned : List MessageHeader), cls.isMsg →
        OpenedFor cls fromXML items messages c₀ → Readable items →
          Reached cls fromXML (fun _ call ↦ call.decoded = []) c₀ returned c →
            Delivers cls fromXML (fun _ call ↦ call.decoded = []) messages returned c := by
  intro hall
  have hdelivers := hall .msg (fun _ ↦ none) twoMessages _ _ _ _ rfl twoMessagesCursor_opened twoMessages_readable
    (afterNothing_reached rfl rfl)
  obtain ⟨rest, -, hnext⟩ := hdelivers.next
  have hcall := hnext ⟨false, 0, []⟩ rfl
  have hthrows : returns (next .msg (fun _ ↦ none) false 0) afterNothing = false := by decide +kernel
  rw [wp] at hcall
  rw [returns] at hthrows
  split at hcall
  · next value c' hrun =>
    rw [hrun] at hthrows
    exact absurd hthrows.symm Bool.false_ne_true
  · exact List.cons_ne_nil _ _ hcall

end DxApi.Cursor.Reading
