import DxApi.Cursor.Reading
import DxApi.Reader.Frame

/-!
# Reading only what is there

`nextIfAvailable` is meant to return at once when no byte is buffered or has arrived. It asks
`nBytesAvailableInStream`, which holds back two bytes for the end of a chunk in unsigned arithmetic:
with nothing buffered the result is almost 2^64, and the reader goes on to wait for the stream. Only
a cursor that has ended is asked in another way, and returns.
-/

namespace DxApi.Cursor.Reading

open Exec Reader

/-! ## Phases of reading -/

/-- Words of up to eight bytes lead from `pre` to `post`. -/
def Loads (cls : ReaderClass) (pre post : DataReader → Prop) : Prop :=
  ∀ n : ℕ, 0 < n → n ≤ 8 → Leads pre (bytes cls n) fun _ ↦ post

/-- What may hold before the first read, between two messages and inside a message. -/
structure Phases (cls : ReaderClass) (start between inside : DataReader → Prop) : Prop where
  start_of_between : ∀ r, between r → start r
  load : Loads cls start between
  copy : ∀ n : ℕ, Leads between (getBytes cls n) fun _ ↦ between
  enter : ∀ size ≤ maxMessageSize, Leads between (setMessageSize size) fun _ ↦ inside
  load_inside : Loads cls inside inside
  leave : Leads inside (nextMessage cls) fun _ ↦ between

/-- The state of a cursor while it reads. -/
structure In (inv : DataReader → Prop) (isWithin isDone : Bool) (c : ReadingCursor) : Prop where
  reader : inv c.reader
  isWithin_eq : c.isWithinMessageBlock = isWithin
  isDone_eq : c.readMessageDone = isDone

section

variable {cls : ReaderClass} {pre post start between inside inv : DataReader → Prop}
  {isWithin isDone : Bool} {fromXML : Name → Option (Name × Name)}

theorem Loads.loadBE {n : ℕ} (h : Loads cls pre post) (hpositive : 0 < n) (hn : n ≤ 8) :
    Leads pre (loadBE cls n) fun _ ↦ post := by
  apply (h n hpositive hn).bind
  intro p
  apply leads_get_bind
  intro r hr
  exact leads_pure fun _ hfound ↦ hfound ▸ hr

theorem leads_onReader {α : Type} {program : ReaderM α} (h : Leads pre program fun _ ↦ post) :
    Leads (In pre isWithin isDone) (onReader program) fun _ ↦ In post isWithin isDone := by
  intro c hc
  rw [onReader, wp_zoom]
  apply wp_mono (h c.reader hc.reader)
  · exact fun _ r hr ↦ ⟨hr, hc.isWithin_eq, hc.isDone_eq⟩
  · exact fun _ _ _ ↦ trivial

theorem leads_onCursor {α : Type} (program : CursorM α) :
    Leads (In inv isWithin isDone) (onCursor program) fun _ ↦ In inv isWithin isDone := by
  intro c hc
  rw [onCursor, wp_zoom]
  have hboth : wp program (fun _ _ ↦ True) (fun _ _ ↦ True) c.cursor := wp_trivial
  apply wp_mono hboth
  · exact fun _ _ _ ↦ ⟨hc.reader, hc.isWithin_eq, hc.isDone_eq⟩
  · exact fun _ _ _ ↦ trivial

/-- What does not look at what was read. -/
theorem leads_return {α : Type} (value : α) :
    Leads (In inv isWithin isDone) (pure value : ReadingM α) fun _ ↦ In inv isWithin isDone :=
  leads_pure fun _ hc ↦ hc

theorem Phases.load_between (h : Phases cls start between inside) : Loads cls between between :=
  fun n hpositive hn ↦ (h.load n hpositive hn).mono h.start_of_between fun _ _ hr ↦ hr

theorem Phases.getUTF8 (h : Phases cls start between inside) :
    Leads between (getUTF8 cls) fun _ ↦ between := by
  apply (h.load_between.loadBE (by decide) (by decide)).bind
  intro len
  apply Leads.ite
  · exact fun _ ↦ leads_pure fun _ hr ↦ hr
  · intro _
    apply (h.copy len).bind
    exact fun _ ↦ leads_pure fun _ hr ↦ hr

theorem readEntityId_leads (isChecked : Bool) (h : Loads cls pre post) (hagain : Loads cls post post) :
    Leads (In pre isWithin isDone) (readEntityId cls isChecked) fun _ ↦ In post isWithin isDone := by
  apply (leads_onReader (h.loadBE (by decide) (by decide))).bind
  intro entityId
  apply Leads.ite
  · intro _
    apply leads_get_bind
    intro c hc
    apply Leads.ite
    · exact fun _ ↦ leads_throw _
    · intro _
      have hlow : Leads (In post isWithin isDone) (do
          let low ← onReader (getUInt16 cls)
          return ((entityId + 0xFFFF0000) * 2 ^ 16 + low + 0x80000000) % 2 ^ 32)
          (fun _ ↦ In post isWithin isDone) :=
        (leads_onReader (hagain.loadBE (by decide) (by decide))).bind fun _ ↦ leads_return _
      exact hlow.mono (fun _ hfound ↦ hfound ▸ hc) fun _ _ hr ↦ hr
  · exact fun _ ↦ leads_return entityId

theorem readMessageType_leads (h : Phases cls start between inside) :
    Leads (In between isWithin isDone) (readMessageType cls fromXML) fun _ ↦ In between isWithin isDone := by
  apply (leads_onReader (h.load_between.loadBE (by decide) (by decide))).bind
  intro descriptorId
  apply (leads_onReader h.getUTF8).bind
  intro text
  cases text with
  | none => exact leads_throw _
  | some text => exact leads_onCursor _

theorem readEntity_leads (h : Phases cls start between inside) :
    Leads (In between isWithin isDone) (readEntity cls) fun _ ↦ In between isWithin isDone := by
  apply (readEntityId_leads true h.load_between h.load_between).bind
  intro symbolId
  apply (leads_onReader h.getUTF8).bind
  exact fun _ ↦ leads_onCursor _

theorem readStreamKey_leads (h : Phases cls start between inside) :
    Leads (In between isWithin isDone) (readStreamKey cls) fun _ ↦ In between isWithin isDone := by
  apply (leads_onReader (h.load_between.loadBE (by decide) (by decide))).bind
  intro streamId
  apply Leads.ite
  · exact fun _ ↦ leads_throw _
  · intro _
    apply (leads_onReader h.getUTF8).bind
    exact fun _ ↦ leads_onCursor _

theorem readServerError_leads (h : Phases cls start between inside) :
    Leads (In between isWithin isDone) (readServerError cls) fun _ ↦ In between isWithin isDone := by
  apply (leads_onReader (h.load_between.loadBE (by decide) (by decide))).bind
  intro code
  apply (leads_onReader h.getUTF8).bind
  exact fun _ ↦ leads_throw _

theorem getInt64_leads (h : Loads cls pre post) : Leads pre (getInt64 cls) fun _ ↦ post := by
  apply (h.loadBE (by decide) (by decide)).bind
  exact fun _ ↦ leads_pure fun _ hr ↦ hr

theorem readCursorId_leads (h : Phases cls start between inside) :
    Leads (In between isWithin isDone) (readCursorId cls) fun _ ↦ In between isWithin isDone := by
  apply (leads_onReader (getInt64_leads h.load_between)).bind
  intro id
  apply leads_get_bind
  intro c hc
  apply Leads.ite
  · exact fun _ ↦ leads_throw _
  · exact fun _ _ _ ↦ ⟨hc.reader, hc.isWithin_eq, hc.isDone_eq⟩

theorem readCommand_leads (h : Phases cls start between inside) :
    Leads (In between isWithin isDone) (readCommand cls) fun _ ↦ In between isWithin isDone := by
  apply (leads_onReader (getInt64_leads h.load_between)).bind
  exact fun _ ↦ leads_onCursor _

/-- After a record no message is open; the record may have opened a block, unless it has ended the
cursor. -/
theorem readNextRecord_leads (h : Phases cls start between inside) :
    Leads (In start isWithin isDone) (readNextRecord cls fromXML)
      fun goesOn c ↦ In between isWithin isDone c ∨ (goesOn = true ∧ In between true isDone c) := by
  have hsame : ∀ {program : ReadingM Unit},
      Leads (In between isWithin isDone) program (fun _ ↦ In between isWithin isDone) →
        Leads (In between isWithin isDone) (do program; return true)
          fun goesOn c ↦ In between isWithin isDone c ∨ (goesOn = true ∧ In between true isDone c) :=
    fun hprogram ↦ hprogram.bind fun _ ↦ leads_pure fun _ hc ↦ .inl hc
  apply (leads_onReader (h.load.loadBE (by decide) (by decide))).bind
  intro id
  apply (leads_modify fun c hc ↦ ⟨hc.reader, hc.isWithin_eq, hc.isDone_eq⟩ :
    Leads _ _ fun _ ↦ In between isWithin isDone).bind
  intro _
  apply Leads.ite
  · exact fun _ ↦ hsame (readMessageType_leads h)
  intro _
  apply Leads.ite
  · exact fun _ ↦ hsame (readEntity_leads h)
  intro _
  apply Leads.ite
  · exact fun _ ↦ hsame (readStreamKey_leads h)
  intro _
  apply Leads.ite
  · exact fun _ c hc ↦ .inr ⟨rfl, hc.reader, rfl, hc.isDone_eq⟩
  intro _
  apply Leads.ite
  · exact fun _ ↦ hsame (readServerError_leads h)
  intro _
  apply Leads.ite
  · exact fun _ ↦ (leads_onCursor readTerminator).mono (fun _ hc ↦ hc) fun _ _ hc ↦ .inl hc
  intro _
  apply Leads.ite
  · exact fun _ c hc ↦ .inl ⟨hc.reader, hc.isWithin_eq, hc.isDone_eq⟩
  intro _
  apply Leads.ite
  · exact fun _ ↦ hsame (readCursorId_leads h)
  intro _
  apply Leads.ite
  · exact fun _ ↦ hsame (readCommand_leads h)
  · exact fun _ ↦ leads_throw _

theorem readHeader_leads (messageSize : ℕ) (h : Phases cls start between inside) :
    Leads (In inside isWithin isDone) (readHeader cls messageSize) fun _ ↦ In inside isWithin isDone := by
  apply (leads_onReader (getInt64_leads h.load_inside)).bind
  intro timestamp
  apply (leads_modify fun c hc ↦ ⟨hc.reader, hc.isWithin_eq, hc.isDone_eq⟩ :
    Leads _ _ fun _ ↦ In inside isWithin isDone).bind
  intro _
  apply (readEntityId_leads false h.load_inside h.load_inside).bind
  intro entityId
  apply (leads_onReader (h.load_inside.loadBE (by decide) (by decide))).bind
  intro typeId
  apply (leads_onReader (h.load_inside.loadBE (by decide) (by decide))).bind
  exact fun _ ↦ leads_return _

/-- Where a round of the loop leaves the reader. -/
def AfterRound (between inside : DataReader → Prop) (isDone : Bool) : BlockRound → ReadingCursor → Prop
  | .terminated => In between false isDone
  | .skipped => In between true isDone
  | .accepted _ => In inside true isDone

theorem readMessageInBlock_leads (h : Phases cls start between inside) :
    Leads (In start true isDone) (readMessageInBlock cls) (AfterRound between inside isDone) := by
  apply (leads_onReader (h.load.loadBE (by decide) (by decide))).bind
  intro messageSize
  apply Leads.ite
  · exact fun _ c hc ↦ ⟨hc.reader, rfl, hc.isDone_eq⟩
  intro _
  by_cases hsize : cursorMessageHeaderSizeEid32 ≤ messageSize ∧ messageSize < maxMessageSize + 1
  · apply (leads_onReader (h.enter messageSize (Nat.le_of_lt_succ hsize.2))).bind
    intro _
    rw [if_neg (not_not_intro hsize)]
    apply (readHeader_leads messageSize h).bind
    intro msg
    apply (leads_onCursor _).bind
    intro isAccepted
    apply Leads.ite
    · exact fun _ ↦ leads_pure fun _ hc ↦ hc
    · intro _
      apply (leads_onReader h.leave).bind
      exact fun _ ↦ leads_pure fun _ hc ↦ hc
  · have hany : Leads (In between true isDone) (onReader (setMessageSize messageSize)) fun _ _ ↦ True :=
      fun _ _ ↦ trivial
    apply hany.bind
    intro _
    rw [if_pos hsize]
    exact leads_throw _

/-- Where `next` leaves the reader: inside the message that it found. -/
def AfterNext (between inside : DataReader → Prop) (isDone : Bool) :
    Option MessageHeader → ReadingCursor → Prop
  | some _ => In inside true isDone
  | none => In between false isDone

theorem readMessagesInBlock_leads (fuel : ℕ) (h : Phases cls start between inside) :
    Leads (In start true isDone) (readMessagesInBlock cls fuel) (AfterNext between inside isDone) := by
  induction fuel with
  | zero => exact leads_throw _
  | succ fuel ih =>
    apply (readMessageInBlock_leads h).bind
    intro found
    cases found with
    | terminated => exact leads_pure fun _ hc ↦ hc
    | accepted msg => exact leads_pure fun _ hc ↦ hc
    | skipped =>
      exact ih.mono (fun c hc ↦ ⟨h.start_of_between _ hc.reader, hc.isWithin_eq, hc.isDone_eq⟩) fun _ _ hc ↦ hc

theorem readNextMessageInBlock_leads (h : Phases cls start between inside) :
    Leads (In start true isDone) (readNextMessageInBlock cls) (AfterNext between inside isDone) := by
  apply leads_get_bind
  intro c hc
  exact (readMessagesInBlock_leads _ h).mono (fun _ hfound ↦ hfound ▸ hc) fun _ _ hc' ↦ hc'

theorem endReading_leads :
    Leads (In between false isDone) endReading (AfterNext between inside isDone) :=
  fun _ hc ↦ ⟨hc.reader, hc.isWithin_eq, hc.isDone_eq⟩

theorem In.start_of_between {c : ReadingCursor} (h : Phases cls start between inside)
    (hc : In between isWithin isDone c) : In start isWithin isDone c :=
  ⟨h.start_of_between _ hc.reader, hc.isWithin_eq, hc.isDone_eq⟩

/-- A record outside a block, and what follows it. -/
theorem readNextRecord_bind {next : Bool → ReadingM (Option MessageHeader)} (h : Phases cls start between inside)
    (hends : Leads (In between false isDone) (next false) (AfterNext between inside isDone))
    (hgoes : ∀ isWithin, Leads (In between isWithin isDone) (next true) (AfterNext between inside isDone)) :
    Leads (In start false isDone) (readNextRecord cls fromXML >>= next) (AfterNext between inside isDone) := by
  apply (readNextRecord_leads h).bind
  intro goesOn c hc
  cases goesOn with
  | false =>
    rcases hc with hc | hc
    · exact hends c hc
    · exact absurd hc.1 Bool.false_ne_true
  | true =>
    rcases hc with hc | hc
    · exact hgoes false c hc
    · exact hgoes true c hc.2

theorem readMessages_leads (fuel : ℕ) (h : Phases cls start between inside) (isWithin : Bool) :
    Leads (In start isWithin isDone) (readMessages cls fromXML fuel) (AfterNext between inside isDone) := by
  induction fuel generalizing start isWithin with
  | zero => exact leads_throw _
  | succ fuel ih =>
    have hagain : Phases cls between between inside :=
      ⟨fun _ hr ↦ hr, h.load_between, h.copy, h.enter, h.load_inside, h.leave⟩
    apply leads_get_bind
    intro c hc
    cases isWithin with
    | true =>
      rw [if_pos hc.isWithin_eq]
      have hblock : Leads (In start true isDone) (readNextMessageInBlock cls >>= fun found ↦
          match found with
          | some msg => pure (some msg)
          | none => readMessages cls fromXML fuel) (AfterNext between inside isDone) := by
        apply (readNextMessageInBlock_leads h).bind
        intro found
        cases found with
        | some msg => exact leads_pure fun _ hc' ↦ hc'
        | none => exact ih hagain false
      exact hblock.mono (fun _ hfound ↦ hfound ▸ hc) fun _ _ hc' ↦ hc'
    | false =>
      rw [if_neg (Bool.eq_false_iff.mp hc.isWithin_eq)]
      have hrecord : Leads (In start false isDone) (readNextRecord cls fromXML >>= fun goesOn ↦
          if goesOn then readMessages cls fromXML fuel else endReading) (AfterNext between inside isDone) := by
        apply readNextRecord_bind h
        · exact endReading_leads
        · exact fun isWithin ↦ ih hagain isWithin
      exact hrecord.mono (fun _ hfound ↦ hfound ▸ hc) fun _ _ hc' ↦ hc'

theorem readRecordsNonBlock_leads (fuel : ℕ) (h : Phases cls start between inside) :
    Leads (In start false isDone) (readRecordsNonBlock cls fromXML fuel) (AfterNext between inside isDone) := by
  induction fuel generalizing start with
  | zero => exact leads_throw _
  | succ fuel ih =>
    have hagain : Phases cls between between inside :=
      ⟨fun _ hr ↦ hr, h.load_between, h.copy, h.enter, h.load_inside, h.leave⟩
    apply readNextRecord_bind h
    · exact endReading_leads
    · intro isWithin
      apply leads_get_bind
      intro c hc
      cases isWithin with
      | true =>
        rw [if_pos hc.isWithin_eq]
        exact (readNextMessageInBlock_leads hagain).mono (fun _ hfound ↦ hfound ▸ hc) fun _ _ hc' ↦ hc'
      | false =>
        rw [if_neg (Bool.eq_false_iff.mp hc.isWithin_eq)]
        apply Leads.ite
        · exact fun _ ↦ leads_pure fun _ hfound ↦ hfound ▸ hc
        · exact fun _ ↦ (ih hagain).mono (fun _ hfound ↦ hfound ▸ hc) fun _ _ hc' ↦ hc'

theorem readNextMessageNonBlock_leads (h : Phases cls start between inside) (isWithin : Bool) :
    Leads (In start isWithin isDone) (readNextMessageNonBlock cls fromXML) (AfterNext between inside isDone) := by
  apply leads_get_bind
  intro c hc
  cases isWithin with
  | true =>
    rw [if_pos hc.isWithin_eq]
    exact (readNextMessageInBlock_leads h).mono (fun _ hfound ↦ hfound ▸ hc) fun _ _ hc' ↦ hc'
  | false =>
    rw [if_neg (Bool.eq_false_iff.mp hc.isWithin_eq)]
    exact (readRecordsNonBlock_leads _ h).mono (fun _ hfound ↦ hfound ▸ hc) fun _ _ hc' ↦ hc'

/-! ## Between and inside messages -/

/-- Between two messages, wherever the stream goes on. -/
def BetweenMessages (cls : ReaderClass) (r : DataReader) : Prop :=
  (∃ rest, Ahead cls r rest) ∧ Placed r maxMessageSize

/-- Inside a message, wherever it began. -/
def WithinMessage (cls : ReaderClass) (r : DataReader) : Prop :=
  ∃ body n, InsideMessage cls body n r ∧ r.bufferEnd + body.length ≤ noContentLimit ∧ Placed r maxMessageSize

theorem placed_of_eq {r r' : DataReader} {n : ℕ} (h : Placed r n) (hstart : r'.bufferStart = r.bufferStart)
    (hend : r'.bufferEnd = r.bufferEnd) : Placed r' n := by
  constructor
  · rw [hstart, hend]
    exact h.hasRoom
  · rw [hend]
    exact h.limit

/-- A call that takes `n` bytes leaves the reader between two messages. -/
theorem betweenMessages_leads {α : Type} {program : ReaderM α} {n : ℕ}
    (hspec : ∀ r rest left, Ready cls r r.dataPtr rest left → HasBuffer r → wp program
      (fun _ r' ↦ Moved r r' ∧ Ready cls r' r'.dataPtr (rest.drop n) (left - n) ∧ ¬ Exceeds cls rest left n)
      (fun _ _ ↦ True) r) :
    Leads (BetweenMessages cls) program fun _ ↦ BetweenMessages cls := by
  intro r hr
  obtain ⟨⟨rest, hahead⟩, hplaced⟩ := hr
  have hlimit := hahead.limit
  obtain ⟨left, hready, hleft⟩ := hahead.ready
  apply wp_mono (hspec r rest left hready hahead.roomy.hasBuffer)
  · intro _ r' h'
    obtain ⟨hmoved, hready', hexceeds⟩ := h'
    obtain ⟨hstart, hend⟩ := hmoved.buffer_eq
    have hn := (within_iff.mp hexceeds).1
    refine ⟨⟨rest.drop n, ⟨⟨left - n, hready', fun hmsg ↦ ?_⟩, hmoved.roomy.mpr hahead.roomy, ?_⟩⟩,
      placed_of_eq hplaced hstart hend⟩
    · have := hleft hmsg
      rw [List.length_drop]
      omega
    · rw [hend, List.length_drop]
      omega
  · exact fun _ _ _ ↦ trivial

/-- What stays in a message leaves the buffer where it is. -/
theorem insideMessage_frame {α : Type} {program : ReaderM α} {body : List UInt8} {n : ℕ} {r : DataReader}
    (hinside : wp program (fun _ ↦ InsideMessage cls body n) (fun _ _ ↦ True) r)
    (hframe : ∀ buffer k, Preserves (Unsent buffer k) program) :
    wp program (fun _ r' ↦ InsideMessage cls body n r' ∧ r'.bufferStart = r.bufferStart ∧ r'.bufferEnd = r.bufferEnd)
      (fun _ _ ↦ True) r := by
  have hunsent : Unsent (r.bufferStart, r.bufferEnd) (r.s.wire.length + 1) r := ⟨Nat.lt_succ_self _, rfl⟩
  apply wp_mono (wp_and hinside (hframe _ _ r hunsent))
  · exact fun _ r' h' ↦ ⟨h'.1, Prod.mk.inj h'.2.2⟩
  · exact fun _ _ _ ↦ trivial

theorem withinMessage_leads {α : Type} {program : ReaderM α}
    (hinside : ∀ body n r, InsideMessage cls body n r →
      wp program (fun _ ↦ InsideMessage cls body n) (fun _ _ ↦ True) r)
    (hframe : ∀ buffer k, Preserves (Unsent buffer k) program) :
    Leads (WithinMessage cls) program fun _ ↦ WithinMessage cls := by
  intro r hr
  obtain ⟨body, n, hin, hlimit, hplaced⟩ := hr
  apply wp_mono (insideMessage_frame (hinside body n r hin) hframe)
  · intro _ r' h'
    obtain ⟨hin', hstart, hend⟩ := h'
    refine ⟨body, n, hin', ?_, placed_of_eq hplaced hstart hend⟩
    rwa [hend]
  · exact fun _ _ _ ↦ trivial

theorem nextMessage_withinMessage :
    Leads (WithinMessage cls) (nextMessage cls) fun _ ↦ BetweenMessages cls := by
  intro r hr
  obtain ⟨body, n, ⟨consumed, left, hin⟩, hlimit, hplaced⟩ := hr
  apply wp_mono (nextMessage_spec hin)
  · intro _ r' h'
    obtain ⟨hnext, -, hbuffer⟩ := h'
    refine ⟨⟨_, hnext.ahead hin.isMsg hbuffer hin.hasRoom ?_⟩,
      placed_of_eq hplaced hbuffer.bufferStart_eq hbuffer.bufferEnd_eq⟩
    rw [List.length_drop]
    omega
  · exact fun _ _ _ ↦ trivial

theorem setMessageSize_betweenMessages (hmsg : cls.isMsg) {size : ℕ} (hsize : size ≤ maxMessageSize) :
    Leads (BetweenMessages cls) (setMessageSize size) fun _ ↦ WithinMessage cls := by
  intro r hr
  obtain ⟨⟨rest, hahead⟩, hplaced⟩ := hr
  have hfits : Placed r size := ⟨hplaced.hasRoom, by have := hplaced.limit; omega⟩
  have hspec := hahead.between.setMessageSize hmsg hfits
  rw [setMessageSize, wp_modify] at hspec ⊢
  exact ⟨rest, size, ⟨0, size, hspec⟩, hahead.limit, placed_of_eq hplaced rfl rfl⟩

theorem phases_messages (hmsg : cls.isMsg) :
    Phases cls (BetweenMessages cls) (BetweenMessages cls) (WithinMessage cls) where
  start_of_between _ hr := hr
  load n _ _ := by
    apply betweenMessages_leads (n := n)
    intro r rest left hready hbuffer
    apply wp_mono (bytes_spec hready hbuffer)
    · exact fun _ _ h' ↦ ⟨h'.1, h'.2.1, h'.2.2.2⟩
    · exact fun _ _ _ ↦ trivial
  copy n := by
    apply betweenMessages_leads (n := n)
    intro r rest left hready hbuffer
    apply wp_mono (getBytes_spec hready hbuffer)
    · exact fun _ _ h' ↦ ⟨h'.1, h'.2.1, h'.2.2.2⟩
    · exact fun _ _ _ ↦ trivial
  enter _ hsize := setMessageSize_betweenMessages hmsg hsize
  load_inside n _ _ := withinMessage_leads (fun _ _ _ hin ↦ bytes_inside n hin) fun _ _ ↦ bytes_unsent cls n
  leave := nextMessage_withinMessage

/-- With no message to be skipped, all that is ahead is skipped. -/
theorem nextMessage_betweenMessages (hmsg : cls.isMsg) :
    Leads (BetweenMessages cls) (nextMessage cls) fun _ r ↦ Ahead cls r [] := by
  intro r hr
  obtain ⟨⟨rest, hahead⟩, hplaced⟩ := hr
  have hlimit := hahead.limit
  obtain ⟨left, hready, hleft⟩ := hahead.ready
  have hall := hleft hmsg
  obtain ⟨n, rfl⟩ : ∃ n : ℕ, left = n := ⟨left.toNat, by omega⟩
  apply wp_mono (hready.nextMessage hmsg hahead.roomy (by omega))
  · intro _ r' h'
    obtain ⟨hnext, hle, hbuffer⟩ := h'
    rw [List.drop_eq_nil_of_le (by omega)] at hnext
    exact hnext.ahead hmsg hbuffer hahead.roomy (by rw [List.length_nil]; omega)
  · exact fun _ _ _ ↦ trivial

/-- Where nothing is ahead, nothing is read. -/
theorem phases_end : Phases cls (fun r ↦ Ahead cls r []) (fun _ ↦ False) (fun _ ↦ False) where
  start_of_between _ hr := hr.elim
  load n hpositive _ r hr := by
    obtain ⟨left, hready, -⟩ := hr.ready
    apply wp_mono (bytes_spec hready hr.roomy.hasBuffer)
    · intro _ _ h'
      have hwithin := (within_iff.mp h'.2.2.2).1
      rw [List.length_nil] at hwithin
      omega
    · exact fun _ _ _ ↦ trivial
  copy _ _ hr := hr.elim
  enter _ _ _ hr := hr.elim
  load_inside _ _ _ _ hr := hr.elim
  leave _ hr := hr.elim

/-! ## Reachable states -/

/-- What a client does with a cursor that it reads: a call of `next`, and when that has found a message
calls of a decoder; a change of the filters, by any thread. -/
inductive ReadingStep
  | next (isNonBlocking : Bool) (arrived : ℕ) (calls : List MessageCall)
  | change (cursor : TickCursorImpl)

def ReadingStep.run (cls : ReaderClass) (fromXML : Name → Option (Name × Name)) : ReadingStep → ReadingM Unit
  | .next isNonBlocking arrived calls => do
    if (← Reading.next cls fromXML isNonBlocking arrived).isSome then
      onReader (runCalls cls calls)
  | .change cursor => modify fun c ↦ { c with cursor := cursor }

def runSteps (cls : ReaderClass) (fromXML : Name → Option (Name × Name)) : List ReadingStep → ReadingM Unit
  | [] => return ()
  | step :: steps => do
    step.run cls fromXML
    runSteps cls fromXML steps

/-- Between two messages, in a block when `nextIfAvailable` has gone there, or inside a message. -/
inductive Steady (cls : ReaderClass) (c : ReadingCursor) : Prop
  | between (isDone : Bool) (h : In (BetweenMessages cls) isDone isDone c)
  | inside (h : In (WithinMessage cls) true false c)

theorem Steady.of_afterNext {c : ReadingCursor} {found : Option MessageHeader}
    (h : AfterNext (BetweenMessages cls) (WithinMessage cls) false found c) : Steady cls c := by
  cases found with
  | some msg => exact .inside h
  | none => exact .between false h

/-- A found message is there to be decoded. -/
def Found (cls : ReaderClass) (found : Option MessageHeader) (c : ReadingCursor) : Prop :=
  Steady cls c ∧ (found.isSome → In (WithinMessage cls) true false c)

theorem Found.of_afterNext {c : ReadingCursor} {found : Option MessageHeader}
    (h : AfterNext (BetweenMessages cls) (WithinMessage cls) false found c) : Found cls found c := by
  refine ⟨.of_afterNext h, fun hsome ↦ ?_⟩
  cases found with
  | some msg => exact h
  | none => exact absurd hsome Bool.false_ne_true

theorem readNextMessage_found (hmsg : cls.isMsg) :
    Leads (Steady cls) (readNextMessage cls fromXML) (Found cls) := by
  have hmessages : ∀ isWithin, Leads (In (BetweenMessages cls) isWithin false)
      (do readMessages cls fromXML (bytesAhead (← get) + 1)) (Found cls) := by
    intro isWithin
    apply leads_get_bind
    intro c hc
    exact (readMessages_leads _ (phases_messages hmsg) isWithin).mono (fun _ hfound ↦ hfound ▸ hc)
      fun _ _ ↦ .of_afterNext
  have hnothing : Leads (In (fun r ↦ Ahead cls r []) true true)
      (do readMessages cls fromXML (bytesAhead (← get) + 1)) (Found cls) := by
    apply leads_get_bind
    intro c hc
    apply (readMessages_leads _ phases_end true).mono (fun _ hfound ↦ hfound ▸ hc)
    intro found _ hc'
    cases found with
    | some msg => exact hc'.reader.elim
    | none => exact hc'.reader.elim
  apply leads_get_bind
  intro c hc s hs
  subst hs
  cases hc with
  | between isDone h =>
    cases isDone with
    | false =>
      rw [if_neg (Bool.eq_false_iff.mp h.isWithin_eq)]
      exact hmessages false s h
    | true =>
      rw [if_pos h.isWithin_eq]
      exact ((leads_onReader (nextMessage_betweenMessages hmsg)).bind fun _ ↦ hnothing) s h
  | inside h =>
    rw [if_pos h.isWithin_eq]
    exact ((leads_onReader nextMessage_withinMessage).bind fun _ ↦ hmessages true) s h

theorem nextNonBlocking_found (hmsg : cls.isMsg) (arrived : ℕ) :
    Leads (Steady cls) (nextNonBlocking cls fromXML arrived) (Found cls) := by
  have hread : ∀ isDone, Leads (In (BetweenMessages cls) isDone isDone) (do
      let c ← get
      if nBytesAvailableInStream c.reader ≤ 0 ∧ arrived ≤ 0 then
        return none
      else
        modify fun c ↦ { c with readMessageDone := false }
        readNextMessageNonBlock cls fromXML) (Found cls) := by
    intro isDone
    apply leads_get_bind
    intro c hc
    apply Leads.ite
    · exact fun _ ↦ leads_pure fun _ hfound ↦
        ⟨.between isDone (hfound ▸ hc), fun hsome ↦ absurd hsome Bool.false_ne_true⟩
    · intro _
      have hmark : Leads (fun s ↦ s = c) (modify fun c ↦ { c with readMessageDone := false } : ReadingM Unit)
          fun _ ↦ In (BetweenMessages cls) isDone false :=
        leads_modify fun _ hfound ↦ hfound ▸ ⟨hc.reader, hc.isWithin_eq, rfl⟩
      exact hmark.bind fun _ ↦
        (readNextMessageNonBlock_leads (phases_messages hmsg) isDone).mono (fun _ hc' ↦ hc') fun _ _ ↦ .of_afterNext
  have hmark : Leads (In (BetweenMessages cls) true false)
      (modify fun c ↦ { c with readMessageDone := true } : ReadingM Unit) fun _ ↦ In (BetweenMessages cls) true true :=
    leads_modify fun _ hc ↦ ⟨hc.reader, hc.isWithin_eq, rfl⟩
  apply leads_get_bind
  intro c hc s hs
  subst hs
  cases hc with
  | between isDone h =>
    have hskipped : ¬ (s.isWithinMessageBlock = true ∧ ¬ s.readMessageDone = true) := by
      rw [h.isWithin_eq, h.isDone_eq]
      exact and_not_self
    rw [if_neg hskipped]
    exact hread isDone s h
  | inside h =>
    have hunread : s.isWithinMessageBlock = true ∧ ¬ s.readMessageDone = true := by
      rw [h.isWithin_eq, h.isDone_eq]
      exact ⟨rfl, Bool.false_ne_true⟩
    rw [if_pos hunread]
    exact ((leads_onReader nextMessage_withinMessage).bind fun _ ↦ hmark.bind fun _ ↦ hread true) s h

theorem Steady.withCursor {c : ReadingCursor} (h : Steady cls c) (cursor : TickCursorImpl) :
    Steady cls { c with cursor := cursor } := by
  cases h with
  | between isDone h => exact .between isDone ⟨h.reader, h.isWithin_eq, h.isDone_eq⟩
  | inside h => exact .inside ⟨h.reader, h.isWithin_eq, h.isDone_eq⟩

theorem resume_steady (arrived : ℕ) : Leads (Steady cls) (resume arrived) fun _ ↦ Steady cls := by
  apply leads_get_bind
  intro c hc
  have hstays : ∀ goesOn : Bool, Leads (fun s ↦ s = c) (pure goesOn : ReadingM Bool) fun _ ↦ Steady cls :=
    fun goesOn ↦ leads_pure fun _ hfound ↦ hfound ▸ hc
  apply Leads.ite
  · intro _
    apply Leads.ite
    · exact fun _ ↦ leads_throw _
    intro _
    apply Leads.ite
    · exact fun _ ↦ hstays false
    · exact fun _ _ _ ↦ hc.withCursor _
  · exact fun _ ↦ hstays true

theorem next_found (hmsg : cls.isMsg) (isNonBlocking : Bool) (arrived : ℕ) :
    Leads (Steady cls) (next cls fromXML isNonBlocking arrived) (Found cls) := by
  apply (resume_steady arrived).bind
  intro goesOn
  apply Leads.ite
  · intro _
    apply Leads.ite
    · exact fun _ ↦ nextNonBlocking_found hmsg arrived
    · exact fun _ ↦ readNextMessage_found hmsg
  · exact fun _ ↦ leads_pure fun _ hc ↦ ⟨hc, fun hsome ↦ absurd hsome Bool.false_ne_true⟩

theorem step_steady (hmsg : cls.isMsg) (step : ReadingStep) :
    Leads (Steady cls) (step.run cls fromXML) fun _ ↦ Steady cls := by
  cases step with
  | next isNonBlocking arrived calls =>
    apply (next_found hmsg isNonBlocking arrived).bind
    intro found
    apply Leads.ite
    · intro hsome
      have hcalls := withinMessage_leads (fun body n r hin ↦ runCalls_inside calls hin)
        fun _ _ ↦ runCalls_unsent cls calls
      exact (leads_onReader hcalls).mono (fun _ hc ↦ hc.2 hsome) fun _ _ hc ↦ .inside hc
    · exact fun _ ↦ leads_pure fun _ hc ↦ hc.1
  | change cursor => exact leads_modify fun _ hc ↦ hc.withCursor cursor

theorem runSteps_steady (hmsg : cls.isMsg) (steps : List ReadingStep) :
    Leads (Steady cls) (runSteps cls fromXML steps) fun _ ↦ Steady cls := by
  induction steps with
  | nil => exact leads_pure fun _ hc ↦ hc
  | cons step steps ih => exact (step_steady hmsg step).bind fun _ ↦ ih

/-! ## Where nothing is available -/

/-- With nothing buffered, the first read takes from the stream. -/
theorem phases_drained (cls : ReaderClass) (buffer : ℤ × ℤ) (k : ℕ) :
    Phases cls (fun r ↦ Unsent buffer k r ∨ (Unsent buffer (k + 1) r ∧ Drained cls r)) (Unsent buffer k)
      (Unsent buffer k) where
  start_of_between _ hr := .inl hr
  load n hpositive _ := by
    intro r hr
    rcases hr with hr | ⟨hr, hdrained⟩
    · exact (bytes_unsent cls n).leads r hr
    · exact bytes_takes hdrained (Int.natCast_pos.mpr hpositive) hr
  copy n := (getBytes_unsent cls n).leads
  enter size _ := (setMessageSize_unsent size).leads
  load_inside n _ _ := (bytes_unsent cls n).leads
  leave := (nextMessage_unsent cls).leads

variable {c c₀ : ReadingCursor}

theorem AfterNext.unsent {buffer : ℤ × ℤ} {k : ℕ} {found : Option MessageHeader}
    (h : AfterNext (Unsent buffer k) (Unsent buffer k) isDone found c) : Unsent buffer k c.reader := by
  cases found with
  | some msg => exact h.reader
  | none => exact h.reader

/-- What is there to be read is then a very large number. -/
theorem nBytesAvailableInStream_drained {r : DataReader} (h : Drained cls r) :
    nBytesAvailableInStream r = 2 ^ 64 - 2 := by
  have hnone : r.streamDataEnd - r.dataPtr - 2 = -2 := by
    rw [h.dataPtr_eq]
    omega
  rw [nBytesAvailableInStream, hnone]
  rfl

theorem nBytesAvailable_drained {r : DataReader} (h : Drained cls r) : nBytesAvailable r = 0 := by
  rw [nBytesAvailable, h.dataEnd_eq, Int.sub_self]
  rfl

/-- Where nothing is available, the reader goes on to the stream. -/
theorem nextNonBlocking_takes {rest : List UInt8} {left : ℤ} (hmsg : cls.isMsg)
    (hready : Ready cls c.reader c.reader.dataPtr rest left)
    (hend : c.reader.dataPtr = c.reader.streamDataEnd) :
    wp (nextNonBlocking cls fromXML 0)
      (fun _ c' ↦ c'.reader.s.wire.length < c.reader.s.wire.length) (fun _ _ ↦ True) c := by
  obtain ⟨buffer, hbuffer⟩ : ∃ buffer, (c.reader.bufferStart, c.reader.bufferEnd) = buffer := ⟨_, rfl⟩
  obtain ⟨k, hk⟩ : ∃ k, c.reader.s.wire.length = k := ⟨_, rfl⟩
  have hunsent : Unsent buffer (k + 1) c.reader := ⟨by omega, hbuffer⟩
  have hphases := phases_drained cls buffer k
  have hread : ∀ isWithin isDone,
      Leads (In (fun r ↦ Unsent buffer k r ∨ (Unsent buffer (k + 1) r ∧ Drained cls r)) isWithin isDone) (do
        let c ← get
        if nBytesAvailableInStream c.reader ≤ 0 ∧ 0 ≤ 0 then
          return none
        else
          modify fun c ↦ { c with readMessageDone := false }
          readNextMessageNonBlock cls fromXML) (fun _ c' ↦ Unsent buffer k c'.reader) := by
    intro isWithin isDone
    apply leads_get_bind
    intro d hd
    apply Leads.ite
    · rintro ⟨hnone, -⟩ _ rfl
      rcases hd.reader with htaken | ⟨-, hdrained⟩
      · exact htaken
      · rw [nBytesAvailableInStream_drained hdrained] at hnone
        exact absurd hnone (by decide)
    · intro _
      have hmark : Leads (fun s ↦ s = d) (modify fun c ↦ { c with readMessageDone := false } : ReadingM Unit)
          fun _ ↦ In (fun r ↦ Unsent buffer k r ∨ (Unsent buffer (k + 1) r ∧ Drained cls r)) isWithin false :=
        leads_modify fun _ hfound ↦ hfound ▸ ⟨hd.reader, hd.isWithin_eq, rfl⟩
      exact hmark.bind fun _ ↦
        (readNextMessageNonBlock_leads hphases isWithin).mono (fun _ hd' ↦ hd') fun _ _ ↦ AfterNext.unsent
  have htakes : wp (nextNonBlocking cls fromXML 0) (fun _ c' ↦ Unsent buffer k c'.reader) (fun _ _ ↦ True) c := by
    rw [nextNonBlocking, wp_bind, wp_get]
    split
    · rw [wp_bind, onReader, wp_zoom]
      apply wp_mono (nextMessage_takes hready hmsg hend hunsent)
      · exact fun _ r hr ↦ hread c.isWithinMessageBlock true _ ⟨hr, rfl, rfl⟩
      · exact fun _ _ _ ↦ trivial
    · exact hread _ _ c ⟨.inr ⟨hunsent, hready.drained hmsg hend⟩, rfl, rfl⟩
  apply wp_mono htakes
  · exact fun _ c' hc' ↦ hk ▸ hc'.1
  · exact fun _ _ _ ↦ trivial

theorem Steady.ready (h : Steady cls c) : ∃ rest left, Ready cls c.reader c.reader.dataPtr rest left := by
  cases h with
  | between isDone h =>
    obtain ⟨⟨rest, hahead⟩, -⟩ := h.reader
    obtain ⟨left, hready, -⟩ := hahead.ready
    exact ⟨rest, left, hready⟩
  | inside h =>
    obtain ⟨body, n, ⟨consumed, left, hin⟩, -⟩ := h.reader
    exact ⟨_, left, hin.ready⟩

/-- An open cursor that nothing was read from. -/
def Opened (cls : ReaderClass) (c : ReadingCursor) : Prop := In (BetweenMessages cls) false false c

/-- `nextIfAvailable` returns false and takes nothing from the stream. -/
def ReadsNothing (cls : ReaderClass) (fromXML : Name → Option (Name × Name)) (c : ReadingCursor) : Prop :=
  ∃ c', next cls fromXML true 0 c = .ok none c' ∧ c'.reader.s = c.reader.s

/-- The cursor has ended, and the reader is not to go on. -/
structure HasEnded (c : TickCursorImpl) : Prop where
  state_eq : c.state = .ended
  isInterrupted_eq : c.isInterrupted = false
  isExecuting_eq : c.subState.current.isExecutingSubscriptions = false

theorem next_takes {rest : List UInt8} {left : ℤ} (hmsg : cls.isMsg)
    (hready : Ready cls c.reader c.reader.dataPtr rest left)
    (hend : c.reader.dataPtr = c.reader.streamDataEnd) (hopen : ¬ HasEnded c.cursor) :
    wp (next cls fromXML true 0) (fun _ c' ↦ c'.reader.s.wire.length < c.reader.s.wire.length)
      (fun _ _ ↦ True) c := by
  rw [next, wp_bind, resume, wp_bind, wp_get]
  split
  · next hended =>
    split
    · trivial
    · next hinterrupted =>
      split
      · next hnothing =>
        exact absurd ⟨hended, Bool.eq_false_iff.mpr hinterrupted, Bool.eq_false_iff.mpr hnothing.1⟩ hopen
      · exact nextNonBlocking_takes (c := { c with cursor := { c.cursor with state := .started } }) hmsg hready hend
  · exact nextNonBlocking_takes hmsg hready hend

/-- In any reachable state in which nothing is available, `nextIfAvailable` returns without a read of the
stream if and only if the cursor has ended. -/
theorem nextIfAvailable_readsNothing_iff {steps : List ReadingStep} (hmsg : cls.isMsg) (hopened : Opened cls c₀)
    (hreached : runSteps cls fromXML steps c₀ = .ok () c) (hend : c.reader.dataPtr = c.reader.streamDataEnd) :
    ReadsNothing cls fromXML c ↔ HasEnded c.cursor := by
  have hsteady : Steady cls c := (runSteps_steady hmsg steps).of_ok (.between false hopened) hreached
  obtain ⟨rest, left, hready⟩ := hsteady.ready
  constructor
  · rintro ⟨c', hrun, hsame⟩
    by_contra hopen
    have htakes : wp (next cls fromXML true 0) (fun _ c' ↦ c'.reader.s.wire.length < c.reader.s.wire.length)
        (fun _ _ ↦ True) c := next_takes hmsg hready hend hopen
    rw [wp_ok hrun, hsame] at htakes
    exact Nat.lt_irrefl _ htakes
  · rintro ⟨hended, hinterrupted, hexecuting⟩
    have hnothing : nBytesAvailable c.reader = 0 := nBytesAvailable_drained (hready.drained hmsg hend)
    have hspec : wp (next cls fromXML true 0) (fun found c' ↦ found = none ∧ c' = c) (fun _ _ ↦ False) c := by
      rw [next, wp_bind, resume, wp_bind, wp_get, if_pos hended, hinterrupted, hexecuting, hnothing]
      exact ⟨rfl, rfl⟩
    obtain ⟨_, _, hrun, rfl, rfl⟩ := exists_ok_of_wp hspec
    exact ⟨_, hrun, rfl⟩

end

/-- A cursor that was just opened. -/
def openedReading (cursor : TickCursorImpl) (wire : List UInt8) : ReadingCursor where
  reader := messageReader wire
  cursor := cursor
  useEntityId32 := true
  isWithinMessageBlock := false
  isIdle := false
  readMessageDone := false
  lastTimestamp := 0

theorem openedReading_opened (cursor : TickCursorImpl) {wire : List UInt8} (hwire : wire.length < 2 ^ 32) :
    Opened .msg (openedReading cursor wire) := by
  constructor
  · exact ⟨⟨wire, messageReader_ahead hwire⟩, messageReader_placed wire (by decide)⟩
  · rfl
  · rfl

theorem nextIfAvailable_readsNothing_ended :
    ReadsNothing .msg (fun _ ↦ none) (openedReading { openedCursor with state := .ended } []) :=
  (@nextIfAvailable_readsNothing_iff _ _ _ _ [] rfl (openedReading_opened _ (by decide)) rfl rfl).mpr
    ⟨rfl, rfl, rfl⟩

/-- A cursor that was just opened waits for the stream. -/
theorem nextIfAvailable_waits :
    ¬ ∀ (cls : ReaderClass) (fromXML : Name → Option (Name × Name)) (steps : List ReadingStep)
      (c₀ c : ReadingCursor), cls.isMsg → Opened cls c₀ → runSteps cls fromXML steps c₀ = .ok () c →
        c.reader.dataPtr = c.reader.streamDataEnd → ReadsNothing cls fromXML c := by
  intro hall
  obtain ⟨c', hrun, -⟩ := hall .msg (fun _ ↦ none) [] _ (openedReading openedCursor []) rfl
    (openedReading_opened openedCursor (by decide)) rfl rfl
  have hthrows : returns (next .msg (fun _ ↦ none) true 0) (openedReading openedCursor []) = false := by
    decide +kernel
  rw [returns, hrun] at hthrows
  exact absurd hthrows.symm Bool.false_ne_true

end DxApi.Cursor.Reading
