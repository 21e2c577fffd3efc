import DxApi.Loader.Upload
import DxApi.Writer.Container

/-!
# Writing inside a message

While a message is open, whatever the client writes into it leaves the buffer in front of the
message as it is, also when the call throws. The one exception is a message whose lengths cannot be
expanded: its expansion points insert more bytes than were counted, and what `finishMessage` does
with it is not bounded by the message. `Balanced` rules it out.
-/

namespace DxApi.Loader

open Exec ByteMemory ByteOrder Writer

/-! ## Open messages -/

/-- A message starts at `messageStart`, behind its length, and everything that the writer remembers
of it lies behind that. -/
structure MessageOpen (messageStart : ℤ) (w : DataWriter) : Prop where
  start : w.bufferStart + 4 ≤ messageStart
  dataPtr : messageStart ≤ w.dataPtr
  header : ∀ level < w.depth, messageStart ≤ w.containerHeader level ∧
    w.containerHeader level - w.bufferStart < 2 ^ 32 - 1
  points : ∀ point ∈ w.expansionPoints, messageStart < w.bufferStart + point.blockOffset
  room : messageStart ≤ w.dataEnd

/-- What a call on the writer of an open message leaves. -/
structure InMessage (messageStart : ℤ) (w w' : DataWriter) : Prop where
  message : MessageOpen messageStart w'
  before : ∀ address < messageStart, w'.mem address = w.mem address
  bufferStart : w'.bufferStart = w.bufferStart
  dataEnd : w'.dataEnd = w.dataEnd

variable {messageStart : ℤ} {w w' w'' : DataWriter}

theorem InMessage.refl (h : MessageOpen messageStart w) : InMessage messageStart w w :=
  ⟨h, fun _ _ ↦ rfl, rfl, rfl⟩

theorem InMessage.trans (h : InMessage messageStart w w') (h' : InMessage messageStart w' w'') :
    InMessage messageStart w w'' := by
  refine ⟨h'.message, ?_, ?_, ?_⟩
  · intro address hlt
    rw [h'.before address hlt, h.before address hlt]
  · rw [h'.bufferStart, h.bufferStart]
  · rw [h'.dataEnd, h.dataEnd]

/-- A change of the bytes behind the start of the message, and a step forward. -/
theorem InMessage.of_mem (h : MessageOpen messageStart w) {mem : Memory} {dataPtr : ℤ}
    (hmem : ∀ address < messageStart, mem address = w.mem address) (hptr : messageStart ≤ dataPtr) :
    InMessage messageStart w { w with mem := mem, dataPtr := dataPtr } :=
  ⟨⟨h.start, hptr, h.header, h.points, h.room⟩, hmem, rfl, rfl⟩

theorem InMessage.of_store (h : MessageOpen messageStart w) {address : ℤ} (data : List UInt8)
    {dataPtr : ℤ} (haddress : messageStart ≤ address) (hptr : messageStart ≤ dataPtr) :
    InMessage messageStart w { w with mem := store w.mem address data, dataPtr := dataPtr } :=
  InMessage.of_mem h (fun _ hlt ↦ store_of_lt (by omega)) hptr

/-! ## Fields -/

/-- What a call that writes a field leaves. A call that returns has not overrun the buffer. -/
def FieldWritten (messageStart : ℤ) (program : WriterM Unit) (w : DataWriter) : Prop :=
  wp program
    (fun _ w' ↦ InMessage messageStart w w' ∧ (w.dataPtr ≤ w.dataEnd → w'.dataPtr ≤ w'.dataEnd))
    (fun _ w' ↦ InMessage messageStart w w') w

theorem FieldWritten.bind {program next : WriterM Unit} (h : FieldWritten messageStart program w)
    (hnext : ∀ w', MessageOpen messageStart w' → FieldWritten messageStart next w') :
    FieldWritten messageStart (do program; next) w := by
  apply wp_bind.mpr
  apply wp_mono h
  · rintro - w' ⟨hw', hend⟩
    apply wp_mono (hnext w' hw'.message)
    · rintro - w'' ⟨hw'', hend'⟩
      exact ⟨hw'.trans hw'', fun hle ↦ hend' (hend hle)⟩
    · intro error w'' hw''
      exact hw'.trans hw''
  · intro error w' hw'
    exact hw'

theorem putBE_written (h : MessageOpen messageStart w) (stored : List UInt8) (size : ℕ) :
    FieldWritten messageStart (putBE stored size) w := by
  have hptr := h.dataPtr
  have hstore : InMessage messageStart w
      { w with mem := store w.mem w.dataPtr stored, dataPtr := w.dataPtr + size } :=
    InMessage.of_store h stored h.dataPtr (by omega)
  simp only [FieldWritten, putBE, onOverflow, wp_bind, wp_get, wp_set, wp_ite, wp_throw, wp_pure]
  exact ⟨fun _ ↦ hstore, fun hfits ↦ ⟨hstore, fun _ ↦ not_lt.mp hfits⟩⟩

theorem putBytes_written (h : MessageOpen messageStart w) (data : List UInt8) :
    FieldWritten messageStart (putBytes data) w := by
  have hptr := h.dataPtr
  have hstore : ∀ part : List UInt8, InMessage messageStart w
      { w with mem := store w.mem w.dataPtr part, dataPtr := w.dataPtr + data.length } :=
    fun part ↦ InMessage.of_store h part h.dataPtr (by omega)
  simp only [FieldWritten, putBytes, onOverflow, wp_bind, wp_get, wp_set, wp_ite, wp_throw]
  exact ⟨fun _ ↦ InMessage.refl h, fun _ ↦
    ⟨fun _ ↦ hstore _, fun hfits ↦ ⟨hstore data, fun _ ↦ not_lt.mp hfits⟩⟩⟩

theorem writeUTF8_written (h : MessageOpen messageStart w) (data : List UInt8) :
    FieldWritten messageStart (writeUTF8 data) w := by
  unfold writeUTF8
  by_cases hlong : 0xFFFF ≤ data.length
  · rw [if_pos hlong]
    exact InMessage.refl h
  · rw [if_neg hlong]
    apply FieldWritten.bind (putBE_written h _ _)
    intro w' hw'
    by_cases hempty : data.length ≠ 0
    · rw [if_pos hempty]
      exact putBytes_written hw' data
    · rw [if_neg hempty]
      exact ⟨InMessage.refl hw', id⟩

theorem writePackedUInt22_written (h : MessageOpen messageStart w) (value : ℕ) :
    FieldWritten messageStart (writePackedUInt22 value) w := by
  unfold writePackedUInt22
  by_cases hsmall : value < 0x80
  · rw [if_pos hsmall]
    exact putBE_written h _ _
  · rw [if_neg hsmall]
    apply wp_bind.mpr
    apply wp_get.mpr
    apply FieldWritten.bind (putBE_written h _ _)
    intro w' hw'
    exact ⟨InMessage.of_store hw' _ h.dataPtr hw'.dataPtr, id⟩

theorem openContainer_written (h : MessageOpen messageStart w)
    (hbounded : w.dataPtr - w.bufferStart < 2 ^ 32 - 1) (isArray : Bool) :
    FieldWritten messageStart (openContainer isArray) w := by
  simp only [FieldWritten, openContainer, reserveLengthField, putByte, wp_bind, wp_get, wp_ite,
    wp_throw, wp_set]
  refine ⟨fun _ ↦ InMessage.refl h, fun _ ↦ ?_⟩
  have hopen : InMessage messageStart w { w with
      depth := w.depth + 1
      containerContentsExtraSize := Function.update w.containerContentsExtraSize (w.depth + 1) 0
      containerHeader := Function.update w.containerHeader w.depth w.dataPtr
      containerIsArray := Function.update w.containerIsArray w.depth isArray } := by
    refine ⟨⟨h.start, h.dataPtr, ?_, h.points, h.room⟩, fun _ _ ↦ rfl, rfl, rfl⟩
    intro level hlevel
    by_cases hlast : level = w.depth
    · rw [hlast]
      simp only [Function.update_self]
      exact ⟨h.dataPtr, hbounded⟩
    · have hbelow : level < w.depth := Nat.lt_of_le_of_ne (Nat.le_of_lt_succ hlevel) hlast
      simp only [Function.update_of_ne hlast]
      exact h.header level hbelow
  apply wp_mono (putBE_written hopen.message [0] 1)
  · rintro - w' ⟨hw', hend⟩
    exact ⟨hopen.trans hw', hend⟩
  · intro error w' hw'
    exact hopen.trans hw'

theorem closeContainer_written (h : MessageOpen messageStart w) (isArray : Bool) :
    FieldWritten messageStart (closeContainer isArray) w := by
  unfold FieldWritten closeContainer
  rw [wp_bind, wp_get]
  cases hdepth : w.depth with
  | zero => exact InMessage.refl h
  | succ depth =>
    obtain ⟨hheader, hoffset⟩ := h.header depth (by omega)
    have hstart := h.start
    have hless : ∀ level < depth, messageStart ≤ w.containerHeader level ∧
        w.containerHeader level - w.bufferStart < 2 ^ 32 - 1 :=
      fun level hlevel ↦ h.header level (by omega)
    have hclosed : InMessage messageStart w { w with depth := depth } :=
      ⟨⟨h.start, h.dataPtr, hless, h.points, h.room⟩, fun _ _ ↦ rfl, rfl, rfl⟩
    simp only [wp_bind, wp_set, wp_ite, wp_throw, wp_modify, wp_pure]
    refine ⟨fun _ ↦ hclosed, fun _ ↦ ⟨fun _ ↦ ?_, fun _ ↦ ?_⟩⟩
    · refine ⟨⟨⟨h.start, h.dataPtr, hless, ?_, h.room⟩, ?_, rfl, rfl⟩, id⟩
      · intro point hpoint
        simp only [List.mem_append, List.mem_singleton] at hpoint
        cases hpoint with
        | inl hold => exact h.points point hold
        | inr hnew =>
          rw [hnew]
          have hwrap : (w.containerHeader depth + 1 - w.bufferStart) % 2 ^ 32 =
              w.containerHeader depth + 1 - w.bufferStart := Int.emod_eq_of_lt (by omega) (by omega)
          simp only [hwrap]
          omega
      · intro address hlt
        exact store_of_lt (by omega)
    · have hlength := InMessage.of_store hclosed.message [UInt8.ofNat
        ((w.dataPtr - (w.containerHeader depth + 1) +
          (w.containerContentsExtraSize (depth + 1) : ℤ)) % 2 ^ 64).toNat]
        (by omega : messageStart ≤ w.containerHeader depth + 1 - 1) h.dataPtr
      exact ⟨hclosed.trans hlength, id⟩

/-- Every field leaves the buffer in front of the message alone. -/
theorem FieldWrite.exec_written (h : MessageOpen messageStart w)
    (hbounded : w.dataPtr - w.bufferStart < 2 ^ 32 - 1) (write : FieldWrite) :
    FieldWritten messageStart write.exec w := by
  cases write with
  | word stored size => exact putBE_written h stored size
  | utf8 data => exact writeUTF8_written h data
  | arrayStart nItems =>
    exact (openContainer_written h hbounded true).bind fun w' hw' ↦ writePackedUInt22_written hw' _
  | arrayEnd => exact closeContainer_written h true
  | objectStart typeIndex =>
    exact (openContainer_written h hbounded false).bind fun w' hw' ↦ putBE_written hw' _ _
  | objectEnd => exact closeContainer_written h false

/-! ## Finishing a message -/

/-- The bytes that an expansion point inserts. -/
def inserted (points : List ExpansionPoint) : ℕ :=
  (points.map fun point ↦ point.headerLength / 2 ^ 24).sum

/-- No more bytes are inserted than were counted at the level of the message. -/
def Balanced (w : DataWriter) : Prop :=
  w.containerContentsExtraSize 0 ≠ 0 →
    inserted w.expansionPoints ≤ w.containerContentsExtraSize 0

/-- The loop over the expansion points succeeds: every block that it moves ends behind its start, and
the offset is used up at the end, behind the start of the message. -/
def Expandable (base messageStart : ℤ) : List ExpansionPoint → ℤ → ℤ → Prop
  | [], pEnd, offset => offset = 0 ∧ messageStart < pEnd
  | point :: points, pEnd, offset => base + point.blockOffset ≤ pEnd ∧
      Expandable base messageStart points (base + point.blockOffset - 1)
        (offset - (point.headerLength / 2 ^ 24 : ℕ))

/-- The open message can be finished. -/
def Finishable (messageStart : ℤ) (w : DataWriter) : Prop :=
  w.depth = 0 ∧ (w.containerContentsExtraSize 0 = 0 ∨
    w.dataPtr + w.containerContentsExtraSize 0 ≤ w.dataEnd ∧
      (w.expansionPoints = [] ∨ Expandable w.bufferStart messageStart w.expansionPoints.reverse
        w.dataPtr (w.containerContentsExtraSize 0)))

/-- Only bytes behind the start of the message have changed. -/
def KeptBefore (messageStart : ℤ) (w w' : DataWriter) : Prop :=
  (∀ address < messageStart, w'.mem address = w.mem address) ∧ w' = { w with mem := w'.mem }

theorem KeptBefore.inMessage (h : KeptBefore messageStart w w') (hw : MessageOpen messageStart w) :
    InMessage messageStart w w' := by
  rw [h.2]
  exact InMessage.of_mem hw h.1 hw.dataPtr

theorem inserted_cons (point : ExpansionPoint) (points : List ExpansionPoint) :
    inserted (point :: points) = point.headerLength / 2 ^ 24 + inserted points := by
  simp [inserted]

theorem moved_before {mem : Memory} {target source pHdr address : ℤ} {count : ℕ} {word : List UInt8}
    (htarget : messageStart ≤ target) (hheader : messageStart ≤ pHdr) (hlt : address < messageStart) :
    store (move mem target source count) pHdr word address = mem address := by
  rw [store_of_lt (by omega), move, store_of_lt (by omega)]

/-- One turn after the other: as long as the offset is not negative, nothing in front of the message
is written. -/
theorem expandLoop_kept {base : ℤ} {points : List ExpansionPoint} {pEnd offset : ℤ}
    (hpoints : ∀ point ∈ points, messageStart < base + point.blockOffset)
    (hoffset : (inserted points : ℤ) ≤ offset) :
    wp (expandLoop base points pEnd offset)
      (fun result w' ↦ KeptBefore messageStart w w' ∧ result.2 = offset - inserted points ∧
        (result.2 = 0 ∧ messageStart < result.1 → Expandable base messageStart points pEnd offset) ∧
        (Expandable base messageStart points pEnd offset → result.2 = 0 ∧ messageStart < result.1))
      (fun _ w' ↦ KeptBefore messageStart w w' ∧
        ¬ Expandable base messageStart points pEnd offset) w := by
  induction points generalizing pEnd offset w with
  | nil => exact ⟨⟨fun _ _ ↦ rfl, rfl⟩, by simp [inserted], id, id⟩
  | cons point points ih =>
    rw [inserted_cons] at hoffset
    push_cast at hoffset
    have hpoint := hpoints point List.mem_cons_self
    have hmore : ∀ other ∈ points, messageStart < base + other.blockOffset :=
      fun other hother ↦ hpoints other (List.mem_cons_of_mem _ hother)
    simp only [expandLoop, memmove, storeHeader, wp_bind, wp_ite, wp_throw, wp_modify]
    constructor
    · intro hnegative
      refine ⟨⟨fun _ _ ↦ rfl, rfl⟩, ?_⟩
      rintro ⟨hend, -⟩
      omega
    · intro hcount
      have hrest : (inserted points : ℤ) ≤ offset - (point.headerLength / 2 ^ 24 : ℕ) := by
        push_cast
        omega
      apply wp_mono (ih hmore hrest)
      · rintro result w' ⟨⟨hbefore, hw'⟩, hresult, hif, honly⟩
        refine ⟨⟨?_, hw'⟩, ?_, ?_, ?_⟩
        · intro address hlt
          rw [hbefore address hlt]
          exact moved_before (by omega) (by omega) hlt
        · rw [hresult, inserted_cons]
          push_cast
          ring
        · intro hdone
          exact ⟨by omega, hif hdone⟩
        · rintro ⟨-, hdone⟩
          exact honly hdone
      · rintro error w' ⟨⟨hbefore, hw'⟩, hnot⟩
        refine ⟨⟨?_, hw'⟩, ?_⟩
        · intro address hlt
          rw [hbefore address hlt]
          exact moved_before (by omega) (by omega) hlt
        · rintro ⟨-, hdone⟩
          exact hnot hdone

theorem Expandable.offset_eq {base : ℤ} {points : List ExpansionPoint} {pEnd offset : ℤ}
    (h : Expandable base messageStart points pEnd offset) : offset = inserted points := by
  induction points generalizing pEnd offset with
  | nil => exact h.1
  | cons point points ih =>
    have hrest := ih h.2
    rw [inserted_cons]
    push_cast at hrest ⊢
    omega

theorem inserted_reverse (points : List ExpansionPoint) : inserted points.reverse = inserted points := by
  rw [inserted, List.map_reverse, List.sum_reverse, inserted]

/-- Of an unbalanced message nothing is finished. -/
theorem not_finishable_of_unbalanced (h : ¬ Balanced w) : ¬ Finishable messageStart w := by
  unfold Balanced at h
  push Not at h
  obtain ⟨hextra, hmore⟩ := h
  rintro ⟨-, hnone | ⟨-, hempty | hexpandable⟩⟩
  · exact hextra hnone
  · rw [hempty] at hmore
    exact absurd hmore (Nat.not_lt_zero _)
  · have hoffset := hexpandable.offset_eq
    rw [inserted_reverse] at hoffset
    omega

theorem expandHeaders_unbalanced (h : ¬ Balanced w) :
    wp (expandHeaders w.bufferStart w.dataPtr (w.containerContentsExtraSize 0) w.expansionPoints
      messageStart) (fun _ _ ↦ False) (fun _ _ ↦ True) w := by
  unfold Balanced at h
  push Not at h
  obtain ⟨hextra, hmore⟩ := h
  have hpoints : w.expansionPoints ≠ [] := by
    intro hempty
    rw [hempty] at hmore
    exact absurd hmore (Nat.not_lt_zero _)
  rw [expandHeaders, if_neg hpoints, wp_bind]
  apply wp_mono (expandLoop_offset _ _ _ _ _)
  · rintro result w' hresult
    change result.2 = _ - (inserted w.expansionPoints.reverse : ℤ) at hresult
    rw [inserted_reverse] at hresult
    simp only [wp_ite, wp_throw, wp_pure]
    exact ⟨fun _ ↦ trivial, fun hnot ↦ hnot (Or.inl (by omega))⟩
  · exact fun _ _ _ ↦ trivial

theorem expandHeaders_balanced (h : MessageOpen messageStart w) (hbalanced : Balanced w)
    (hextra : w.containerContentsExtraSize 0 ≠ 0) :
    wp (expandHeaders w.bufferStart w.dataPtr (w.containerContentsExtraSize 0) w.expansionPoints
        messageStart)
      (fun _ w' ↦ KeptBefore messageStart w w' ∧ (w.expansionPoints = [] ∨
        Expandable w.bufferStart messageStart w.expansionPoints.reverse w.dataPtr
          (w.containerContentsExtraSize 0)))
      (fun _ w' ↦ KeptBefore messageStart w w' ∧ w.expansionPoints ≠ [] ∧
        ¬ Expandable w.bufferStart messageStart w.expansionPoints.reverse w.dataPtr
          (w.containerContentsExtraSize 0)) w := by
  unfold expandHeaders
  by_cases hpoints : w.expansionPoints = []
  · rw [if_pos hpoints]
    exact ⟨⟨fun _ _ ↦ rfl, rfl⟩, Or.inl hpoints⟩
  · rw [if_neg hpoints, wp_bind]
    have hreverse : ∀ point ∈ w.expansionPoints.reverse,
        messageStart < w.bufferStart + point.blockOffset :=
      fun point hpoint ↦ h.points point (List.mem_reverse.mp hpoint)
    have hoffset : (inserted w.expansionPoints.reverse : ℤ) ≤ w.containerContentsExtraSize 0 := by
      rw [inserted_reverse]
      exact_mod_cast hbalanced hextra
    apply wp_mono (expandLoop_kept hreverse hoffset)
    · rintro result w' ⟨hkept, -, hif, honly⟩
      simp only [wp_ite, wp_throw, wp_pure]
      refine ⟨fun hfails ↦ ⟨hkept, hpoints, fun hexpandable ↦ ?_⟩,
        fun hdone ↦ ⟨hkept, Or.inr (hif ?_)⟩⟩
      · obtain ⟨hzero, hlt⟩ := honly hexpandable
        cases hfails with
        | inl hne => exact hne hzero
        | inr hle => omega
      · omega
    · rintro error w' ⟨hkept, hnot⟩
      exact ⟨hkept, hpoints, hnot⟩

/-- `finishMessage` of an open message. -/
theorem finishMessage_kept (h : MessageOpen messageStart w) :
    wp (finishMessage messageStart)
      (fun messageEnd w' ↦ InMessage messageStart w w' ∧ w'.dataPtr = messageEnd ∧
        messageEnd = w.dataPtr + w.containerContentsExtraSize 0 ∧
        (w.containerContentsExtraSize 0 = 0 ∨ messageEnd ≤ w.dataEnd) ∧ Finishable messageStart w)
      (fun _ w' ↦ ¬ Finishable messageStart w ∧ (Balanced w → InMessage messageStart w w')) w := by
  have hdataPtr := h.dataPtr
  simp only [finishMessage, wp_bind, wp_get, wp_ite, wp_throw, wp_pure, wp_modify]
  refine ⟨fun hdepth ↦ ⟨fun hfinishable ↦ hdepth hfinishable.1, fun _ ↦ InMessage.refl h⟩,
    fun hdepth ↦ ⟨fun hnone ↦ ⟨InMessage.refl h, trivial, ?_, Or.inl hnone, ?_⟩,
      fun hextra ↦ ⟨?_, ?_⟩⟩⟩
  · rw [hnone]
    exact (Int.add_zero _).symm
  · exact ⟨not_not.mp hdepth, Or.inl hnone⟩
  · intro hover
    refine ⟨?_, fun _ ↦ InMessage.refl h⟩
    rintro ⟨-, hnone | ⟨hfits, -⟩⟩
    · exact hextra hnone
    · omega
  · intro hfits
    by_cases hbalanced : Balanced w
    · apply wp_mono (expandHeaders_balanced h hbalanced hextra)
      · rintro - w' ⟨hkept, hexpandable⟩
        have hin := hkept.inMessage h
        exact ⟨hin.trans (InMessage.of_mem hin.message (fun _ _ ↦ rfl) (by omega)), trivial,
          trivial, Or.inr (not_lt.mp hfits), not_not.mp hdepth,
          Or.inr ⟨not_lt.mp hfits, hexpandable⟩⟩
      · rintro error w' ⟨hkept, hpoints, hnot⟩
        refine ⟨?_, fun _ ↦ hkept.inMessage h⟩
        rintro ⟨-, hnone | ⟨-, hempty | hexpandable⟩⟩
        · exact hextra hnone
        · exact hpoints hempty
        · exact hnot hexpandable
    · apply wp_mono (expandHeaders_unbalanced hbalanced)
      · exact fun _ _ hfalse ↦ hfalse.elim
      · exact fun _ _ _ ↦ ⟨not_finishable_of_unbalanced hbalanced,
          fun hbalanced' ↦ absurd hbalanced' hbalanced⟩

end DxApi.Loader
