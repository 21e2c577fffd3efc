import DxApi.Loader.Invariants
import DxApi.Loader.Numbering

/-!
# Beginning a message without a commit

`beginMessage` cancels the open message unless it is told to commit. The cancellation happens in
`nextInternal`; before that, the overloads that take a symbol look it up, and a new symbol ends the
message block together with the message in it.
-/

namespace DxApi.Loader

open Exec ByteMemory ByteOrder Writer Net TickLoaderImpl

variable {l l' : TickLoaderImpl}

/-! ## Cancelling -/

/-- The overloads of `beginMessage` whose last argument is `false` or left out. -/
inductive Begin
  | ofEntity (userTypeId entityId timestamp : ℕ)
  | ofSymbol (userTypeId : ℕ) (symbolName : List UInt8) (timestamp : ℕ)

namespace Begin

def exec : Begin → LoaderM Unit
  | ofEntity userTypeId entityId timestamp =>
    beginMessageOfEntity userTypeId entityId timestamp false
  | ofSymbol userTypeId symbolName timestamp => beginMessage userTypeId symbolName timestamp false

/-- The overload writes an instrument record first. -/
def Registers : Begin → TickLoaderImpl → Prop
  | ofEntity _ _ _, _ => False
  | ofSymbol _ symbolName _, l => l.IsNew symbolName

end Begin

/-- The message that was open in `l` is neither counted nor among the messages that the bytes sent or
buffered for sending are read as. -/
def Abandoned (l l' : TickLoaderImpl) : Prop :=
  l'.nMsgWritten = l.nMsgWritten ∧ ∀ request sent, l.uploaded = request ++ sent →
    ∃ sent', l'.uploaded = request ++ sent' ∧
      (Receiver.start.readAll sent').messages = (Receiver.start.readAll sent).messages

theorem Abandoned.of_uploaded (hcount : l'.nMsgWritten = l.nMsgWritten)
    (huploaded : l'.uploaded = l.uploaded) : Abandoned l l' :=
  ⟨hcount, fun _ sent hsent ↦ ⟨sent, huploaded.trans hsent, rfl⟩⟩

/-- The open message of `l` is cancelled, and another one is written in its place. -/
structure Replaced (l l' : TickLoaderImpl) : Prop where
  state : l'.state = .messageBody
  messageStart : l'.messageStart = l.messageStart
  dataPtr : l.messageStart - 4 ≤ l'.messageWriter.dataPtr
  before : ∀ address < l.messageStart - 4,
    l'.messageWriter.mem address = l.messageWriter.mem address
  ioStream : l'.ioStream = l.ioStream
  writePtr : l'.writePtr = l.writePtr
  nMsgWritten : l'.nMsgWritten = l.nMsgWritten

theorem Replaced.abandoned (h : Replaced l l') (hstate : l.state = .messageBody) : Abandoned l l' := by
  apply Abandoned.of_uploaded h.nMsgWritten
  have hbytes : slice l'.messageWriter.mem l.writePtr (l.messageStart - 4) =
      slice l.messageWriter.mem l.writePtr (l.messageStart - 4) :=
    slice_congr fun address _ hlt ↦ h.before address hlt
  rw [uploaded, uploaded, committedEnd, committedEnd, if_pos h.state, if_pos hstate, h.messageStart,
    h.ioStream, h.writePtr, hbytes]

/-- A word is stored, and the pointer moves, also when the buffer is overrun. -/
theorem putBE_stored (data : List UInt8) (size : ℕ) (w : DataWriter) :
    wp (putBE data size)
      (fun _ w' ↦ w' = { w with mem := store w.mem w.dataPtr data, dataPtr := w.dataPtr + size })
      (fun _ w' ↦ w' = { w with mem := store w.mem w.dataPtr data, dataPtr := w.dataPtr + size })
      w := by
  simp only [putBE, onOverflow, wp_bind, wp_get, wp_set, wp_ite, wp_throw, wp_pure]
  exact ⟨fun _ ↦ trivial, fun _ ↦ trivial⟩

theorem putBE_replaced (data : List UInt8) (size : ℕ) :
    Preserves (Replaced l) (onWriter (putBE data size)) := by
  intro l' h
  have hptr := h.dataPtr
  have hput : ∀ w', w' = { l'.messageWriter with
      mem := store l'.messageWriter.mem l'.messageWriter.dataPtr data
      dataPtr := l'.messageWriter.dataPtr + size } →
      Replaced l { l' with messageWriter := w' } := by
    intro w' hw'
    rw [hw']
    refine ⟨h.state, h.messageStart, ?_, ?_, h.ioStream, h.writePtr, h.nMsgWritten⟩
    · change l.messageStart - 4 ≤ l'.messageWriter.dataPtr + size
      omega
    · intro address hlt
      exact (store_of_lt (by omega)).trans (h.before address hlt)
  rw [onWriter, wp_zoom]
  apply wp_mono (putBE_stored data size l'.messageWriter)
  · exact fun _ w' hw' ↦ hput w' hw'
  · exact fun _ w' hw' ↦ hput w' hw'

theorem writeHeader_replaced (remoteMessageTypeId remoteEntityId timestamp : ℕ) :
    Preserves (Replaced l) (writeHeader remoteMessageTypeId remoteEntityId timestamp) := by
  have htype : Preserves (Replaced l) (onWriter (putByte (UInt8.ofNat remoteMessageTypeId))) :=
    putBE_replaced _ 1
  unfold writeHeader
  apply Preserves.bind (putBE_replaced _ 8)
  intro _
  apply Preserves.bind preserves_get
  intro current
  apply Preserves.ite
  · apply Preserves.bind (putBE_replaced _ 2)
    intro _
    exact Preserves.bind (putBE_replaced _ 2) fun _ ↦ htype
  · apply Preserves.ite
    · exact preserves_throw _
    · exact Preserves.bind (putBE_replaced _ 2) fun _ ↦ htype

/-- The state between the old message and the new one. -/
structure Cancelled (l l' : TickLoaderImpl) : Prop where
  state : l'.state = .messageStart
  messageStart : l'.messageStart = l.messageStart
  dataPtr : l'.messageWriter.dataPtr = l.messageStart - 4
  mem : l'.messageWriter.mem = l.messageWriter.mem
  ioStream : l'.ioStream = l.ioStream
  writePtr : l'.writePtr = l.writePtr
  nMsgWritten : l'.nMsgWritten = l.nMsgWritten

theorem leaveMessage_cancels (hstate : l.state = .messageBody) :
    wp (leaveMessage false) (fun _ l' ↦ Cancelled l l') (fun _ _ ↦ False) l := by
  unfold leaveMessage
  rw [wp_bind, wp_get, hstate]
  exact ⟨rfl, rfl, rfl, rfl, rfl, rfl, rfl⟩

theorem Cancelled.abandoned (h : Cancelled l l') (hstate : l.state = .messageBody) :
    Abandoned l l' := by
  have hnotBody : l'.state ≠ .messageBody := by
    rw [h.state]
    exact State.noConfusion
  apply Abandoned.of_uploaded h.nMsgWritten
  rw [uploaded, uploaded, committedEnd, committedEnd, if_neg hnotBody, if_pos hstate, h.dataPtr, h.mem,
    h.ioStream, h.writePtr]

theorem openMessage_replaces (h : Cancelled l l') :
    wp openMessage (fun _ last ↦ Replaced l last) (fun _ last ↦ Replaced l last) l' := by
  have hptr := h.dataPtr
  have hbefore : ∀ address < l.messageStart - 4,
      store l'.messageWriter.mem l'.messageWriter.dataPtr [0, 0, 0, 0] address =
        l.messageWriter.mem address := by
    intro address hlt
    rw [store_of_lt (by omega), h.mem]
  have hback : l.messageStart - 4 ≤ l'.messageWriter.dataPtr + (4 : ℕ) := by omega
  have hstart : l'.messageWriter.dataPtr + 4 = l.messageStart := by omega
  simp only [openMessage, setState, startMessage, onWriter, wp_bind, wp_modify, wp_zoom, wp_get, wp_pure]
  apply wp_mono (putBE_stored [0, 0, 0, 0] 4 l'.messageWriter)
  · intro _ w' hw'
    rw [hw']
    exact ⟨rfl, hstart, hback, hbefore, h.ioStream, h.writePtr, h.nMsgWritten⟩
  · intro error w' hw'
    rw [hw']
    exact ⟨rfl, h.messageStart, hback, hbefore, h.ioStream, h.writePtr, h.nMsgWritten⟩

theorem nextInternal_abandons (hstate : l.state = .messageBody)
    (remoteMessageTypeId remoteEntityId timestamp : ℕ) :
    wp (nextInternal false remoteMessageTypeId remoteEntityId timestamp)
      (fun _ l' ↦ Abandoned l l') (fun _ l' ↦ Abandoned l l') l := by
  unfold nextInternal
  rw [wp_bind]
  apply wp_mono (leaveMessage_cancels hstate)
  · intro _ cancelled hcancelled
    rw [wp_bind]
    unfold checkWriterInterruption
    rw [wp_bind, wp_get]
    by_cases hinterrupted : cancelled.interruption ≠ .working
    · rw [if_pos hinterrupted, wp_throw]
      exact hcancelled.abandoned hstate
    · rw [if_neg hinterrupted, wp_pure, wp_bind]
      apply wp_mono (openMessage_replaces hcancelled)
      · intro _ opened hopened
        apply wp_mono (writeHeader_replaced remoteMessageTypeId remoteEntityId timestamp opened hopened)
        · exact fun _ _ hlast ↦ hlast.abandoned hstate
        · exact fun _ _ hlast ↦ hlast.abandoned hstate
      · exact fun _ _ hopened ↦ hopened.abandoned hstate
  · exact fun _ _ hfalse ↦ hfalse.elim

theorem beginMessageOfEntity_abandons (hstate : l.state = .messageBody)
    (userTypeId entityId timestamp : ℕ) :
    wp (beginMessageOfEntity userTypeId entityId timestamp false)
      (fun _ l' ↦ Abandoned l l') (fun _ l' ↦ Abandoned l l') l := by
  have hsame : Abandoned l l := Abandoned.of_uploaded rfl rfl
  unfold beginMessageOfEntity
  rw [wp_bind]
  apply wp_mono (getMessageDescriptorId_spec userTypeId l)
  · rintro typeId found ⟨hfound, -⟩
    rw [hfound, wp_bind, wp_get, wp_ite]
    exact ⟨fun _ ↦ hsame, fun _ ↦ nextInternal_abandons hstate typeId entityId timestamp⟩
  · rintro error found ⟨hfound, -⟩
    rw [hfound]
    exact hsame

/-- A symbol that is known is only looked up. -/
theorem getInstrumentId_known {instr : List UInt8} (hknown : ¬ l.IsNew instr) :
    wp (getInstrumentId instr) (fun _ l' ↦ l' = l) (fun _ _ ↦ False) l := by
  have hmem : instr ∈ l.instruments := not_not.mp hknown
  unfold getInstrumentId
  rw [wp_bind, wp_get, if_pos hmem, wp_pure]

theorem beginMessage_abandons_of_known (hstate : l.state = .messageBody) (userTypeId : ℕ)
    {symbolName : List UInt8} (timestamp : ℕ) (hknown : ¬ l.IsNew symbolName) :
    wp (beginMessage userTypeId symbolName timestamp false)
      (fun _ l' ↦ Abandoned l l') (fun _ l' ↦ Abandoned l l') l := by
  unfold beginMessage
  rw [wp_bind]
  apply wp_mono (getInstrumentId_known hknown)
  · intro entityId found hfound
    rw [hfound, wp_bind]
    apply wp_mono (getMessageDescriptorId_spec userTypeId l)
    · rintro typeId found ⟨hfound, -⟩
      rw [hfound]
      exact nextInternal_abandons hstate typeId entityId timestamp
    · rintro error found ⟨hfound, -⟩
      rw [hfound]
      exact Abandoned.of_uploaded rfl rfl
  · exact fun _ _ hfalse ↦ hfalse.elim

/-! ## New symbols -/

/-- A message that cannot be finished stays open. -/
theorem endMessage_unfinishable (hopen : MessageOpen l.messageStart l.messageWriter)
    (hbalanced : Balanced l.messageWriter) (hnot : ¬ Finishable l.messageStart l.messageWriter) :
    wp endMessage (fun _ _ ↦ False)
      (fun _ l' ↦ ∃ w', InMessage l.messageStart l.messageWriter w' ∧
        l' = { l with messageWriter := w' }) l := by
  unfold endMessage completeMessage onWriter
  rw [wp_bind, wp_bind, wp_get, wp_bind, wp_zoom]
  apply wp_mono (finishMessage_kept hopen)
  · rintro messageEnd w' ⟨-, -, -, -, hfinishable⟩
    exact absurd hfinishable hnot
  · rintro error w' ⟨-, hkept⟩
    exact ⟨w', hkept hbalanced, rfl⟩

/-- Then a new symbol is not registered on the wire, and the open message is not ended. -/
theorem getInstrumentId_unfinishable (hstate : l.state = .messageBody)
    (hopen : MessageOpen l.messageStart l.messageWriter) (hbalanced : Balanced l.messageWriter)
    (hnot : ¬ Finishable l.messageStart l.messageWriter) {instr : List UInt8} (hnew : l.IsNew instr) :
    wp (getInstrumentId instr) (fun _ _ ↦ False) (fun _ l' ↦ Abandoned l l') l := by
  have hmem : instr ∉ l.instruments := hnew
  have hmessage : l.state.isWritingMessage = true := by
    rw [hstate]
    rfl
  unfold getInstrumentId writeInstrumentBlock endMessageBlockIfNeeded
  rw [wp_bind, wp_get, if_neg hmem, wp_bind, wp_set, wp_bind, wp_bind, wp_bind, wp_get, if_pos hmessage,
    if_pos hstate, wp_bind]
  apply wp_mono (endMessage_unfinishable (l := { l with instruments := l.instruments ++ [instr] })
    hopen hbalanced hnot)
  · exact fun _ _ hfalse ↦ hfalse.elim
  · rintro error l' ⟨w', hw', hl'⟩
    have hbefore : ∀ address < l.messageStart, w'.mem address = l.messageWriter.mem address :=
      hw'.before
    have hbytes : slice w'.mem l.writePtr (l.messageStart - 4) =
        slice l.messageWriter.mem l.writePtr (l.messageStart - 4) :=
      slice_congr fun address _ hlt ↦ hbefore address (by omega)
    rw [hl']
    refine Abandoned.of_uploaded rfl ?_
    rw [uploaded, uploaded, committedEnd, committedEnd, if_pos hstate]
    simp only [if_pos hstate, hbytes]

/-- More than `count` messages are counted. -/
def Counted (count : ℕ) (l : TickLoaderImpl) : Prop := count < l.nMsgWritten

variable {count : ℕ}

theorem counted_untouched : Untouched (Counted count) where
  messageWriter _ _ hl := hl
  state _ _ hl := hl
  messageStart _ _ hl := hl
  writePtr _ _ hl := hl
  instruments _ _ hl := hl
  counted _ hl := Nat.lt_succ_of_lt hl
  cancelled _ hl := hl
  write _ := preserves_zoom _ fun _ _ hl ↦ hl

/-- A message that can be finished is counted, also when the buffer cannot be flushed. -/
theorem endMessage_counted (hopen : MessageOpen l.messageStart l.messageWriter)
    (hfinishable : Finishable l.messageStart l.messageWriter) :
    wp endMessage (fun _ l' ↦ Counted l.nMsgWritten l') (fun _ l' ↦ Counted l.nMsgWritten l') l := by
  unfold endMessage completeMessage onWriter
  rw [wp_bind, wp_bind, wp_get, wp_bind, wp_zoom]
  apply wp_mono (finishMessage_kept hopen)
  · intro messageEnd w' _
    rw [wp_bind, wp_modify, wp_pure]
    have hrest : Preserves (Counted l.nMsgWritten) (do
        flushIfNeeded messageEnd
        setState .messageStart) :=
      (preserves_flushIfNeeded counted_untouched messageEnd).bind fun _ ↦ preserves_setState counted_untouched _
    exact hrest _ (Nat.lt_succ_self l.nMsgWritten)
  · rintro error w' ⟨hnot, -⟩
    exact absurd hfinishable hnot

theorem beginMessage_counts (hstate : l.state = .messageBody)
    (hopen : MessageOpen l.messageStart l.messageWriter)
    (hfinishable : Finishable l.messageStart l.messageWriter) (userTypeId : ℕ)
    {symbolName : List UInt8} (timestamp : ℕ) (hnew : l.IsNew symbolName) :
    wp (beginMessage userTypeId symbolName timestamp false)
      (fun _ l' ↦ Counted l.nMsgWritten l') (fun _ l' ↦ Counted l.nMsgWritten l') l := by
  have hmem : symbolName ∉ l.instruments := hnew
  have hmessage : l.state.isWritingMessage = true := by
    rw [hstate]
    rfl
  have hafter : ∀ entityId, Preserves (Counted l.nMsgWritten) (do
      let typeId ← getMessageDescriptorId userTypeId
      nextInternal false typeId entityId timestamp) := fun _ ↦
    (preserves_getMessageDescriptorId userTypeId).bind fun _ ↦ preserves_nextInternal counted_untouched _ _ _ _
  have hrecord := preserves_instrumentRecord (@counted_untouched l.nMsgWritten) symbolName
  have hend := preserves_leaveBlock (@counted_untouched l.nMsgWritten)
  unfold beginMessage getInstrumentId writeInstrumentBlock endMessageBlockIfNeeded
  rw [wp_bind, wp_bind, wp_get, if_neg hmem, wp_bind, wp_set, wp_bind, wp_bind, wp_bind, wp_get,
    if_pos hmessage, if_pos hstate, wp_bind]
  apply wp_mono (endMessage_counted (l := { l with instruments := l.instruments ++ [symbolName] })
    hopen hfinishable)
  · intro _ ended hended
    apply wp_mono (hend ended hended)
    · intro _ outside houtside
      apply wp_mono (hrecord outside houtside)
      · exact fun _ registered hregistered ↦ hafter _ registered hregistered
      · exact fun _ _ h ↦ h
    · exact fun _ _ h ↦ h
  · exact fun _ _ h ↦ h

/-! ## The main result -/

theorem Begin.abandons_of_not_registers (hstate : l.state = .messageBody) (o : Begin)
    (hknown : ¬ o.Registers l) : Abandoned l (finalState o.exec l) := by
  cases o with
  | ofEntity userTypeId entityId timestamp =>
    exact finalState_of_wp (beginMessageOfEntity_abandons hstate userTypeId entityId timestamp)
  | ofSymbol userTypeId symbolName timestamp =>
    exact finalState_of_wp (beginMessage_abandons_of_known hstate userTypeId timestamp hknown)

theorem Begin.abandons_of_unfinishable (hstate : l.state = .messageBody)
    (hopen : MessageOpen l.messageStart l.messageWriter) (hbalanced : Balanced l.messageWriter)
    (hnot : ¬ Finishable l.messageStart l.messageWriter) (o : Begin) :
    Abandoned l (finalState o.exec l) := by
  by_cases hregisters : o.Registers l
  · cases o with
    | ofEntity userTypeId entityId timestamp => exact hregisters.elim
    | ofSymbol userTypeId symbolName timestamp =>
      have hbegin : wp (beginMessage userTypeId symbolName timestamp false)
          (fun _ l' ↦ Abandoned l l') (fun _ l' ↦ Abandoned l l') l := by
        rw [beginMessage, wp_bind]
        apply wp_mono (getInstrumentId_unfinishable hstate hopen hbalanced hnot hregisters)
        · exact fun _ _ hfalse ↦ hfalse.elim
        · exact fun _ _ habandoned ↦ habandoned
      exact finalState_of_wp hbegin
  · exact o.abandons_of_not_registers hstate hregisters

/-- An open message is abandoned by `beginMessage` without a commit if no record has to be written
for the symbol, or if the message cannot be finished; it is not abandoned if a record has to be
written and the message can be finished. -/
theorem beginMessage_abandons (hstate : l.state = .messageBody) (o : Begin) :
    (¬ o.Registers l ∨ MessageOpen l.messageStart l.messageWriter ∧ Balanced l.messageWriter ∧
        ¬ Finishable l.messageStart l.messageWriter → Abandoned l (finalState o.exec l)) ∧
      (Abandoned l (finalState o.exec l) → ¬ o.Registers l ∨
        ¬ (MessageOpen l.messageStart l.messageWriter ∧
          Finishable l.messageStart l.messageWriter)) := by
  constructor
  · rintro (hknown | ⟨hopen, hbalanced, hnot⟩)
    · exact o.abandons_of_not_registers hstate hknown
    · exact o.abandons_of_unfinishable hstate hopen hbalanced hnot
  · intro habandoned
    by_contra hneither
    push Not at hneither
    obtain ⟨hregisters, hopen, hfinishable⟩ := hneither
    cases o with
    | ofEntity userTypeId entityId timestamp => exact hregisters
    | ofSymbol userTypeId symbolName timestamp =>
      have hcounted : Counted l.nMsgWritten
          (finalState (beginMessage userTypeId symbolName timestamp false) l) :=
        finalState_of_wp
          (beginMessage_counts hstate hopen hfinishable userTypeId timestamp hregisters)
      exact hcounted.ne' habandoned.1

/-- With the symbol of the first message, the open message is replaced. -/
theorem beginMessage_abandons_first :
    Abandoned (runAll [.next 0 [65] 0] (openedLoader 100))
      (finalState (Begin.ofSymbol 0 [65] 1).exec (runAll [.next 0 [65] 0] (openedLoader 100))) := by
  have hstate : (runAll [.next 0 [65] 0] (openedLoader 100)).state = .messageBody := by
    decide +kernel
  have hknown : ¬ (Begin.ofSymbol 0 [65] 1).Registers (runAll [.next 0 [65] 0] (openedLoader 100)) := by
    have hmem : [65] ∈ (runAll [.next 0 [65] 0] (openedLoader 100)).instruments := by decide +kernel
    exact fun hnew ↦ hnew hmem
  exact (beginMessage_abandons hstate (.ofSymbol 0 [65] 1)).1 (Or.inl hknown)

/-- With a new symbol, the open message is counted and sent. -/
theorem beginMessage_sends :
    ¬ ∀ (l : TickLoaderImpl) (calls : List Call) (o : Begin), Opened l →
      (runAll calls l).state = .messageBody →
      Abandoned (runAll calls l) (finalState o.exec (runAll calls l)) := by
  intro hall
  have hstate : (runAll [.next 0 [65] 0] (openedLoader 100)).state = .messageBody := by
    decide +kernel
  have hcount : (finalState (Begin.ofSymbol 0 [66] 1).exec
      (runAll [.next 0 [65] 0] (openedLoader 100))).nMsgWritten ≠
        (runAll [.next 0 [65] 0] (openedLoader 100)).nMsgWritten := by
    decide +kernel
  exact hcount (hall (openedLoader 100) [.next 0 [65] 0] (.ofSymbol 0 [66] 1)
    (opened_openedLoader 100) hstate).1

end DxApi.Loader
