import DxApi.Loader.Calls
import DxApi.Loader.Expansion

/-!
# Whether a message fits

A message is written behind the bytes that are pending in the buffer, and nothing is sent to make
room for it. Which calls of a message return depends on the room that is left, on whether the
connection takes the buffer when the message is committed, and on nothing else.
-/

namespace DxApi.Loader

open Exec ByteMemory ByteOrder Writer Net TickLoaderImpl

/-! ## Opening a message -/

/-- The calls that open a message. -/
inductive Opener
  | next (userTypeId : ℕ) (symbolName : List UInt8) (timestamp : ℕ)
  | nextOfEntity (userTypeId entityId timestamp : ℕ)
  | nextOfType (typeName symbolName : List UInt8) (timestamp : ℕ)
  | beginMessage (userTypeId : ℕ) (symbolName : List UInt8) (timestamp : ℕ) (commitPrevious : Bool)
  | beginMessageOfEntity (userTypeId entityId timestamp : ℕ) (commitPrevious : Bool)

namespace Opener

def call : Opener → Call
  | next userTypeId symbolName timestamp => .next userTypeId symbolName timestamp
  | nextOfEntity userTypeId entityId timestamp => .nextOfEntity userTypeId entityId timestamp
  | nextOfType typeName symbolName timestamp => .nextOfType typeName symbolName timestamp
  | beginMessage userTypeId symbolName timestamp commitPrevious =>
    .beginMessage userTypeId symbolName timestamp commitPrevious
  | beginMessageOfEntity userTypeId entityId timestamp commitPrevious =>
    .beginMessageOfEntity userTypeId entityId timestamp commitPrevious

end Opener

/-- The start of a message block, if none is open. -/
def blockStart (l : TickLoaderImpl) : List UInt8 :=
  if l.state = .notInMessageBlock then [messageBlockId] else []

/-- The end of the message block, if one is open. -/
def blockEnd (l : TickLoaderImpl) : List UInt8 :=
  if l.state = .notInMessageBlock then [] else bigEndian 4 messageBlockTerminatorRecord

/-- The record of an instrument. -/
def instrumentRecord (name : List UInt8) : List UInt8 :=
  instrumentBlockId :: (bigEndian 2 name.length ++ name)

/-- What is written in front of a message for a symbol. -/
def leadOfSymbol (name : List UInt8) (l : TickLoaderImpl) : List UInt8 :=
  if l.IsNew name then blockEnd l ++ instrumentRecord name ++ [messageBlockId] else blockStart l

/-- The number of a symbol, known or new. -/
def entityIdOf (name : List UInt8) (l : TickLoaderImpl) : ℕ :=
  if l.IsNew name then l.instruments.length else l.instruments.idxOf name

/-- The name of a new symbol is too long. -/
def Unwritable (name : List UInt8) (l : TickLoaderImpl) : Prop :=
  l.IsNew name ∧ 0xFFFF ≤ name.length

instance (name : List UInt8) (l : TickLoaderImpl) : Decidable (Unwritable name l) :=
  inferInstanceAs (Decidable (_ ∧ _))

def uint16Patch (value : ℕ) : Patch := Patch.word (bigEndian 2 (value % 2 ^ 16)) 2

def entityPatch (useEntityId32 : Bool) (entityId : ℕ) : Option Patch :=
  if useEntityId32 then
    both (some (uint16Patch (entityId / 2 ^ 16 + 0x8000))) (some (uint16Patch entityId))
  else if 0x8000 ≤ entityId then none
  else some (uint16Patch entityId)

/-- `writeHeader`. -/
def headerPatch (useEntityId32 : Bool) (typeId entityId timestamp : ℕ) : Option Patch :=
  both (some (Patch.word (bigEndian 8 (timestamp % 2 ^ 64)) 8))
    (both (entityPatch useEntityId32 entityId) (some (Patch.byte (UInt8.ofNat typeId))))

/-- A message that holds its header only. -/
def headed (useEntityId32 : Bool) (typeId : Option ℕ) (entityId timestamp : ℕ) : Option Draft := do
  let header ← headerPatch useEntityId32 (← typeId) entityId timestamp
  return Draft.start.put header

namespace Opener

/-- What the call writes in front of the message. -/
def lead : Opener → TickLoaderImpl → List UInt8
  | next _ symbolName _, l | nextOfType _ symbolName _, l | beginMessage _ symbolName _ _, l =>
    leadOfSymbol symbolName l
  | nextOfEntity .., l | beginMessageOfEntity .., l => blockStart l

/-- The message that the call opens; none if it throws wherever the pointer is. -/
def draft : Opener → TickLoaderImpl → Option Draft
  | next userTypeId symbolName timestamp, l | beginMessage userTypeId symbolName timestamp _, l =>
    if Unwritable symbolName l then none
    else headed l.useEntityId32 (l.typeIdLocal2Remote userTypeId) (entityIdOf symbolName l) timestamp
  | nextOfType typeName symbolName timestamp, l =>
    if Unwritable symbolName l then none
    else headed l.useEntityId32 (l.typeIndex typeName) (entityIdOf symbolName l) timestamp
  | nextOfEntity userTypeId entityId timestamp, l
  | beginMessageOfEntity userTypeId entityId timestamp _, l =>
    if l.instruments.length ≤ entityId then none
    else headed l.useEntityId32 (l.typeIdLocal2Remote userTypeId) entityId timestamp

end Opener

/-! ## Between messages -/

/-- No message is open, and the loader is writing. Every loader that was opened is in such a state
between its messages. -/
structure Ready (l : TickLoaderImpl) : Prop where
  state : l.state = .notInMessageBlock ∨ l.state = .messageStart
  interruption : l.interruption = .working
  connected : l.connected = true
  writePtr : l.writePtr = l.messageWriter.bufferStart
  base : l.messageWriter.bufferStart ≤ l.messageWriter.dataPtr
  dataEnd : l.messageWriter.dataEnd = l.messageWriter.bufferStart + (maxMessageSize + 56 : ℕ)

/-- Bytes were written in front of a message, and the loader is otherwise as it was, but for its
state and the instruments. -/
structure Led (l : TickLoaderImpl) (lead : List UInt8) (l' : TickLoaderImpl) : Prop where
  writer : l'.messageWriter = (Patch.data lead).put l.messageWriter
  rest : l' = { l with
    messageWriter := l'.messageWriter, state := l'.state, instruments := l'.instruments }

/-- There is no room behind the pending bytes. -/
def NoRoom (l : TickLoaderImpl) (size : ℕ) : Prop :=
  l.messageWriter.dataEnd < l.messageWriter.dataPtr + size

variable {l l' l'' : TickLoaderImpl} {lead more : List UInt8}

theorem data_append (first second : List UInt8) :
    (Patch.data first).append (Patch.data second) = Patch.data (first ++ second) := by
  unfold Patch.append Patch.data Patch.word
  congr 1
  · funext offset
    by_cases hfirst : offset < first.length
    · rw [if_pos hfirst, List.getElem?_append_left hfirst]
    · have hnone : first[offset]? = none := List.getElem?_eq_none (not_lt.mp hfirst)
      rw [if_neg hfirst, List.getElem?_append_right (not_lt.mp hfirst)]
      change (second[offset - first.length]?).or (first[offset]?) = _
      rw [hnone, Option.or_none]
  · rw [List.length_append]

theorem Led.refl (l : TickLoaderImpl) : Led l [] l := ⟨(Patch.put_empty l.messageWriter).symm, rfl⟩

theorem Led.put (h : Led l lead l') {program : WriterM Unit}
    (hprogram : Puts (some (Patch.data more)) program) :
    wp (onWriter program)
      (fun _ l'' ↦ Led l (lead ++ more) l'' ∧ l''.state = l'.state ∧
        l''.instruments = l'.instruments)
      (fun _ _ ↦ NoRoom l (lead ++ more).length) l' := by
  have hptr : l'.messageWriter.dataPtr = l.messageWriter.dataPtr + lead.length := by rw [h.writer]; rfl
  have hend : l'.messageWriter.dataEnd = l.messageWriter.dataEnd := by rw [h.writer]; rfl
  rw [onWriter, wp_zoom]
  apply wp_mono (hprogram l'.messageWriter)
  · rintro - w' ⟨p, hp, hw', -⟩
    obtain rfl : Patch.data more = p := Option.some.inj hp
    refine ⟨⟨?_, ?_⟩, rfl, rfl⟩
    · rw [hw', h.writer, ← Patch.put_append, data_append]
    · rw [h.rest]
  · intro error w' hover
    have hbehind := hover _ rfl
    change _ < l'.messageWriter.dataPtr + (more.length : ℕ) at hbehind
    unfold NoRoom
    rw [List.length_append]
    push_cast
    omega

theorem puts_putUInt32 (value : ℕ) : Puts (some (Patch.data (bigEndian 4 value))) (putUInt32 value) := by
  have hword : Patch.data (bigEndian 4 value) = Patch.word (bigEndian 4 value) 4 := by
    rw [Patch.data, length_bigEndian]
  rw [hword]
  exact puts_putBE _ _

theorem NoRoom.mono {size more : ℕ} (h : NoRoom l size) (hle : size ≤ more) : NoRoom l more := by
  unfold NoRoom at h ⊢
  omega

theorem endMessageBlockIfNeeded_led (h : Ready l) :
    wp endMessageBlockIfNeeded
      (fun _ l' ↦ Led l (blockEnd l) l' ∧ l'.state = .notInMessageBlock ∧
        l'.instruments = l.instruments)
      (fun _ _ ↦ NoRoom l (blockEnd l).length) l := by
  unfold endMessageBlockIfNeeded
  rw [wp_bind, wp_get]
  cases h.state with
  | inl hstate =>
    have hwriting : ¬ l.state.isWritingMessage = true := by
      rw [hstate]
      exact Bool.false_ne_true
    rw [if_neg hwriting, blockEnd, if_pos hstate]
    exact ⟨Led.refl l, hstate, rfl⟩
  | inr hstate =>
    have hwriting : l.state.isWritingMessage = true := by rw [hstate]; rfl
    have hnotBody : ¬ l.state = .messageBody := by
      rw [hstate]
      exact State.noConfusion
    have hnotOut : ¬ l.state = .notInMessageBlock := by
      rw [hstate]
      exact State.noConfusion
    have hled : Led l [] { l with state := .notInMessageBlock } := ⟨(Led.refl l).writer, rfl⟩
    rw [if_pos hwriting, if_neg hnotBody, wp_bind, setState, wp_modify, blockEnd, if_neg hnotOut]
    apply wp_mono (hled.put (puts_putUInt32 messageBlockTerminatorRecord))
    · rintro - l' ⟨hl', hstate', hinstruments⟩
      exact ⟨hl', hstate', hinstruments⟩
    · exact fun _ _ hroom ↦ hroom

theorem utf8Patch_eq {name : List UInt8} (h : ¬ 0xFFFF ≤ name.length) :
    utf8Patch name = some (Patch.data (bigEndian 2 name.length ++ name)) := by
  have hword : Patch.word (bigEndian 2 name.length) 2 = Patch.data (bigEndian 2 name.length) := by
    rw [Patch.data, length_bigEndian]
  rw [utf8Patch, if_neg h, hword]
  by_cases hempty : name.length ≠ 0
  · rw [if_pos hempty, ← data_append]
    rfl
  · have hnil : name = [] := List.length_eq_zero_iff.mp (not_not.mp hempty)
    rw [if_neg hempty, hnil, List.append_nil]

/-- The record of a new instrument fits, or the name cannot be written. -/
theorem putInstrument_led (h : Led l lead l') (name : List UInt8) :
    wp (do onWriter (putByte instrumentBlockId); onWriter (writeUTF8 name))
      (fun _ l'' ↦ ¬ 0xFFFF ≤ name.length ∧ Led l (lead ++ instrumentRecord name) l'' ∧
        l''.state = l'.state ∧ l''.instruments = l'.instruments)
      (fun _ _ ↦ ¬ 0xFFFF ≤ name.length → NoRoom l (lead ++ instrumentRecord name).length) l' := by
  have hsplit : lead ++ instrumentRecord name =
      lead ++ [instrumentBlockId] ++ (bigEndian 2 name.length ++ name) := by
    rw [List.append_assoc]
    rfl
  rw [wp_bind]
  apply wp_mono (h.put (puts_putByte instrumentBlockId))
  · rintro - first ⟨hfirst, hstate, hinstruments⟩
    by_cases hlong : 0xFFFF ≤ name.length
    · rw [onWriter, wp_zoom, writeUTF8, if_pos hlong, wp_throw]
      exact fun hshort ↦ absurd hlong hshort
    · have hname := puts_writeUTF8 name
      rw [utf8Patch_eq hlong] at hname
      rw [hsplit]
      apply wp_mono (hfirst.put hname)
      · rintro - last ⟨hlast, hstate', hinstruments'⟩
        exact ⟨hlong, hlast, hstate'.trans hstate, hinstruments'.trans hinstruments⟩
      · exact fun _ _ hroom _ ↦ hroom
  · intro error first hroom _
    refine hroom.mono ?_
    rw [hsplit]
    simp only [List.length_append]
    omega

theorem writeInstrumentBlock_led (h : Ready l) (name : List UInt8) :
    wp (writeInstrumentBlock name)
      (fun _ l' ↦ ¬ 0xFFFF ≤ name.length ∧ Led l (blockEnd l ++ instrumentRecord name) l' ∧
        l'.state = .notInMessageBlock ∧ l'.instruments = l.instruments)
      (fun _ _ ↦ ¬ 0xFFFF ≤ name.length → NoRoom l (blockEnd l ++ instrumentRecord name).length) l := by
  unfold writeInstrumentBlock
  rw [wp_bind]
  apply wp_mono (endMessageBlockIfNeeded_led h)
  · rintro - middle ⟨hmiddle, hstate, hinstruments⟩
    have hworking : middle.interruption = .working := by
      rw [hmiddle.rest]
      exact h.interruption
    rw [wp_bind, checkWriterInterruption_spec hworking]
    apply wp_mono (putInstrument_led hmiddle name)
    · rintro - last ⟨hshort, hlast, hstate', hinstruments'⟩
      exact ⟨hshort, hlast, hstate'.trans hstate, hinstruments'.trans hinstruments⟩
    · exact fun _ _ hroom ↦ hroom
  · intro error middle hroom _
    refine hroom.mono ?_
    rw [List.length_append]
    omega

/-- The bytes written by `getInstrumentId`. -/
def registration (name : List UInt8) (l : TickLoaderImpl) : List UInt8 :=
  if l.IsNew name then blockEnd l ++ instrumentRecord name else []

theorem getInstrumentId_led (h : Ready l) (name : List UInt8) :
    wp (getInstrumentId name)
      (fun entityId l' ↦ ¬ Unwritable name l ∧ entityId = entityIdOf name l ∧
        Led l (registration name l) l' ∧
        l'.state = if l.IsNew name then .notInMessageBlock else l.state)
      (fun _ _ ↦ ¬ Unwritable name l → NoRoom l (registration name l).length) l := by
  unfold getInstrumentId registration entityIdOf Unwritable
  rw [wp_bind, wp_get]
  by_cases hknown : name ∈ l.instruments
  · have hold : ¬ l.IsNew name := not_not.mpr hknown
    simp only [if_pos hknown, if_neg hold, wp_pure]
    exact ⟨fun hnot ↦ hold hnot.1, trivial, Led.refl l, trivial⟩
  · have hnew : l.IsNew name := hknown
    simp only [if_neg hknown, if_pos hnew, wp_bind, wp_set, wp_pure]
    have hnamed : Ready { l with instruments := l.instruments ++ [name] } :=
      ⟨h.state, h.interruption, h.connected, h.writePtr, h.base, h.dataEnd⟩
    apply wp_mono (writeInstrumentBlock_led hnamed name)
    · rintro - l' ⟨hshort, hl', hstate, -⟩
      exact ⟨fun hlong ↦ hshort hlong.2, trivial, ⟨hl'.writer, hl'.rest⟩, hstate⟩
    · exact fun _ _ hroom hwritable ↦ hroom fun hlong ↦ hwritable ⟨hknown, hlong⟩

/-! ## Inside a message -/

/-- A message is open behind the pending bytes and what was written in front of it. -/
structure Writing (l : TickLoaderImpl) (lead : List UInt8) (d : Draft) (l' : TickLoaderImpl) : Prop where
  state : l'.state = .messageBody
  messageStart : l'.messageStart = l.messageWriter.dataPtr + (lead.length + 4 : ℕ)
  drafted : Drafted l'.messageStart
    ((Patch.data (lead ++ [0, 0, 0, 0])).apply l.messageWriter.mem l.messageWriter.dataPtr) d
    l'.messageWriter
  sound : d.Sound
  within : l'.messageWriter.dataPtr ≤ l.messageWriter.dataEnd
  bufferStart : l'.messageWriter.bufferStart = l.messageWriter.bufferStart
  dataEnd : l'.messageWriter.dataEnd = l.messageWriter.dataEnd
  rest : l' = { l with
    messageWriter := l'.messageWriter
    messageStart := l'.messageStart
    state := l'.state
    instruments := l'.instruments }

variable {d d' : Draft}

/-- A call with the open message returns exactly if the draft has it and there is room. -/
def Extends (l : TickLoaderImpl) (lead : List UInt8) (next : Option Draft) (program : LoaderM Unit)
    (l' : TickLoaderImpl) : Prop :=
  wp program (fun _ l'' ↦ ∃ d', next = some d' ∧ Writing l lead d' l'')
    (fun _ _ ↦ ∀ d', next = some d' → NoRoom l (lead.length + 4 + d'.size)) l'

theorem Writing.follow (h : Writing l lead d l') {next : Option Draft} {program : WriterM Unit}
    (hprogram : Follows l'.messageStart
      ((Patch.data (lead ++ [0, 0, 0, 0])).apply l.messageWriter.mem l.messageWriter.dataPtr) next
      program l'.messageWriter) (hsound : ∀ d', next = some d' → d'.Sound) :
    Extends l lead next (onWriter program) l' := by
  rw [Extends, onWriter, wp_zoom]
  apply wp_mono hprogram
  · rintro - w' ⟨d', hd', hw'⟩
    refine ⟨d', hd', h.state, h.messageStart, hw'.drafted, hsound d' hd', ?_,
      hw'.bufferStart.trans h.bufferStart, hw'.dataEnd.trans h.dataEnd, ?_⟩
    · rw [← h.dataEnd]
      exact hw'.within
    · rw [h.rest]
  · intro error w' hover d' hd'
    have hbehind := hover d' hd'
    rw [h.dataEnd, h.messageStart] at hbehind
    unfold NoRoom
    push_cast at hbehind ⊢
    omega

theorem Writing.buffer (h : Writing l lead d l') (hready : Ready l) :
    l'.messageWriter.dataEnd - l'.messageWriter.bufferStart < 2 ^ 24 := by
  have hend := hready.dataEnd
  have hsame := h.dataEnd
  have hstart := h.bufferStart
  unfold maxMessageSize at hend
  omega

theorem Writing.size_lt (h : Writing l lead d l') (hready : Ready l) : d.size < 2 ^ 24 := by
  have hbuffer := h.buffer hready
  have hptr := h.drafted.dataPtr
  have hstart := h.drafted.start
  have hwithin := h.within
  have hend := h.dataEnd
  omega

/-- A write of the client. -/
theorem Writing.write (h : Writing l lead d l') (hready : Ready l) (write : BodyWrite) :
    Extends l lead (d.write write) (onWriter write.exec) l' := by
  have hwithin := h.within
  rw [← h.dataEnd] at hwithin
  exact h.follow (h.drafted.write h.sound hwithin (h.buffer hready) write)
    fun d' hd' ↦ h.sound.write (h.size_lt hready) hd'

/-- A store into the open message. -/
theorem Writing.put (h : Writing l lead d l') {patch : Patch} {program : WriterM Unit}
    (hprogram : Puts (some patch) program) :
    Extends l lead (some (d.put patch)) (onWriter program) l' := by
  apply h.follow (h.drafted.follows_put (hprogram l'.messageWriter))
  intro d' hd'
  rw [← Option.some.inj hd']
  exact h.sound.put patch

theorem Extends.bind {next : Option Draft} {program rest : LoaderM Unit}
    (h : Extends l lead (some d) program l')
    (hrest : ∀ l'', Writing l lead d l'' → Extends l lead next rest l'')
    (hsize : ∀ d', next = some d' → d.size ≤ d'.size) :
    Extends l lead next (program >>= fun _ ↦ rest) l' := by
  rw [Extends, wp_bind]
  apply wp_mono h
  · rintro - l'' ⟨d₁, hd₁, hl''⟩
    rw [← Option.some.inj hd₁] at hl''
    exact hrest l'' hl''
  · intro error l'' hroom d' hd'
    exact (hroom d rfl).mono (Nat.add_le_add_left (hsize d' hd') _)

/-! ### The header -/

theorem Draft.put_put (d : Draft) (first second : Patch) :
    (d.put first).put second = d.put (first.append second) := by
  simp only [Draft.put, Patch.append_assoc]

theorem puts_putUInt16 (value : ℕ) : Puts (some (uint16Patch value)) (putUInt16 value) := puts_putBE _ _

/-- The entity and the type of a message. -/
theorem writeEntity_extends (h : Writing l lead d l') (typeId entityId : ℕ) :
    Extends l lead
      ((both (entityPatch l.useEntityId32 entityId) (some (Patch.byte (UInt8.ofNat typeId)))).map
        fun patch ↦ d.put patch)
      (if l.useEntityId32 then do
        onWriter (putUInt16 (entityId / 2 ^ 16 + 0x8000))
        onWriter (putUInt16 entityId)
        onWriter (putByte (UInt8.ofNat typeId))
      else if 0x8000 ≤ entityId then throw (.entityIdTooBig (entityId % 2 ^ 16))
      else do
        onWriter (putUInt16 entityId)
        onWriter (putByte (UInt8.ofNat typeId))) l' := by
  unfold entityPatch
  by_cases hlong : l.useEntityId32 = true
  · rw [if_pos hlong, if_pos hlong]
    have hdraft : (both (both (some (uint16Patch (entityId / 2 ^ 16 + 0x8000)))
        (some (uint16Patch entityId))) (some (Patch.byte (UInt8.ofNat typeId)))).map
        (fun patch ↦ d.put patch) =
        some (((d.put (uint16Patch (entityId / 2 ^ 16 + 0x8000))).put (uint16Patch entityId)).put
          (Patch.byte (UInt8.ofNat typeId))) := by
      rw [Draft.put_put, Draft.put_put, ← Patch.append_assoc]
      rfl
    rw [hdraft]
    refine (h.put (puts_putUInt16 _)).bind (fun _ hfirst ↦
      (hfirst.put (puts_putUInt16 _)).bind (fun _ hsecond ↦ hsecond.put (puts_putByte _)) ?_) ?_
    · intro d' hd'
      rw [← Option.some.inj hd']
      exact size_put _ _
    · intro d' hd'
      rw [← Option.some.inj hd']
      exact (size_put _ _).trans (size_put _ _)
  · rw [if_neg hlong, if_neg hlong]
    by_cases hbig : 0x8000 ≤ entityId
    · rw [if_pos hbig, if_pos hbig]
      exact fun d' hnone ↦ absurd hnone (Option.some_ne_none d').symm
    · rw [if_neg hbig, if_neg hbig]
      have hdraft : (both (some (uint16Patch entityId)) (some (Patch.byte (UInt8.ofNat typeId)))).map
          (fun patch ↦ d.put patch) =
          some ((d.put (uint16Patch entityId)).put (Patch.byte (UInt8.ofNat typeId))) := by
        rw [Draft.put_put]
        rfl
      rw [hdraft]
      refine (h.put (puts_putUInt16 _)).bind (fun _ hfirst ↦ hfirst.put (puts_putByte _)) ?_
      intro d' hd'
      rw [← Option.some.inj hd']
      exact size_put _ _

theorem map_both (d : Draft) (first : Patch) (second : Option Patch) :
    (both (some first) second).map (fun patch ↦ d.put patch) =
      second.map fun patch ↦ (d.put first).put patch := by
  cases second with
  | none => rfl
  | some patch =>
    simp only [Option.map_some, Draft.put_put]
    rfl

theorem writeHeader_extends (h : Writing l lead d l') (typeId entityId timestamp : ℕ) :
    Extends l lead
      ((headerPatch l.useEntityId32 typeId entityId timestamp).map fun patch ↦ d.put patch)
      (writeHeader typeId entityId timestamp) l' := by
  rw [headerPatch, map_both]
  refine (h.put (puts_putBE _ _)).bind (fun first hfirst ↦ ?_) ?_
  · have hlong : first.useEntityId32 = l.useEntityId32 := by rw [hfirst.rest]
    have hentity := writeEntity_extends hfirst typeId entityId
    rw [← hlong] at hentity ⊢
    exact hentity
  · intro d' hd'
    obtain ⟨patch, -, hpatch⟩ := Option.map_eq_some_iff.mp hd'
    rw [← hpatch]
    exact size_put _ _

/-! ### The start -/

theorem leaveMessage_led (h : Led l lead l')
    (hstate : l'.state = .notInMessageBlock ∨ l'.state = .messageStart) (shouldCommit : Bool) :
    wp (leaveMessage shouldCommit)
      (fun _ l'' ↦ Led l (lead ++ blockStart l') l'' ∧ l''.state = .messageStart ∧
        l''.instruments = l'.instruments)
      (fun _ _ ↦ NoRoom l (lead ++ blockStart l').length) l' := by
  unfold leaveMessage blockStart
  rw [wp_bind, wp_get]
  cases hstate with
  | inl hout =>
    simp only [hout, if_true, wp_bind, setState, wp_modify]
    apply wp_mono (h.put (puts_putByte messageBlockId))
    · rintro - l'' ⟨hl'', -, hinstruments⟩
      exact ⟨⟨hl''.writer, by rw [hl''.rest]⟩, trivial, hinstruments⟩
    · exact fun _ _ hroom ↦ hroom
  | inr hin =>
    have hnot : ¬ l'.state = .notInMessageBlock := by
      rw [hin]
      exact State.noConfusion
    rw [if_neg hnot, List.append_nil]
    simp only [hin, wp_pure]
    exact ⟨h, trivial, trivial⟩

/-- A message is opened where the bytes in front of it end. -/
theorem openMessage_led (hready : Ready l) (h : Led l lead l') :
    wp openMessage (fun _ l'' ↦ Writing l lead Draft.start l'')
      (fun _ _ ↦ NoRoom l (lead.length + 4)) l' := by
  have hput := puts_putBE [0, 0, 0, 0] 4 l'.messageWriter
  have hptr : l'.messageWriter.dataPtr = l.messageWriter.dataPtr + lead.length := by rw [h.writer]; rfl
  have hend : l'.messageWriter.dataEnd = l.messageWriter.dataEnd := by rw [h.writer]; rfl
  have hfirst : l'.messageWriter.bufferStart = l.messageWriter.bufferStart := by rw [h.writer]; rfl
  have hbase := hready.base
  simp only [openMessage, setState, startMessage, onWriter, wp_bind, wp_modify, wp_zoom, wp_get, wp_pure]
  apply wp_mono hput
  · rintro - w' ⟨p, hp, hw', hfits⟩
    obtain rfl : Patch.data [0, 0, 0, 0] = p := Option.some.inj hp
    have hwhole : (Patch.data [0, 0, 0, 0]).put l'.messageWriter =
        (Patch.data (lead ++ [0, 0, 0, 0])).put l.messageWriter := by
      rw [h.writer, ← Patch.put_append, data_append]
    have hlast : w'.dataPtr = l.messageWriter.dataPtr + (lead.length + 4 : ℕ) := by
      rw [hw', hwhole]
      simp [Patch.put, Patch.data, Patch.word]
    have hmem : w'.mem =
        (Patch.data (lead ++ [0, 0, 0, 0])).apply l.messageWriter.mem l.messageWriter.dataPtr := by
      rw [hw', hwhole]
      rfl
    have hlimit : w'.dataEnd = l.messageWriter.dataEnd := by rw [hw', hwhole]; rfl
    have hbuffer : w'.bufferStart = l.messageWriter.bufferStart := by rw [hw', hwhole]; rfl
    have hwithin : w'.dataPtr ≤ l.messageWriter.dataEnd := by
      have hle : l'.messageWriter.dataPtr + (4 : ℕ) ≤ l'.messageWriter.dataEnd := hfits
      omega
    have hstart : l'.messageWriter.dataPtr + 4 = l.messageWriter.dataPtr + (lead.length + 4 : ℕ) := by
      push_cast
      omega
    refine ⟨rfl, hstart, ⟨?_, ?_, ?_, rfl, ?_, ?_, ?_, rfl⟩, Draft.sound_start, hwithin, hbuffer, hlimit, ?_⟩
    · change w'.bufferStart + 4 ≤ l'.messageWriter.dataPtr + 4
      omega
    · change w'.dataPtr = l'.messageWriter.dataPtr + 4 + (0 : ℕ)
      omega
    · change w'.mem = Patch.empty.apply _ (l'.messageWriter.dataPtr + 4)
      rw [Patch.apply_empty, hmem]
    · exact fun level hlevel ↦ absurd hlevel (Nat.not_lt_zero level)
    · exact fun level hlevel ↦ absurd hlevel (Nat.not_lt_zero level)
    · intro level hlevel
      obtain rfl : level = 0 := Nat.le_zero.mp hlevel
      rfl
    · rw [h.rest]
  · intro error w' hover
    have hbehind : l'.messageWriter.dataEnd < l'.messageWriter.dataPtr + (4 : ℕ) := hover _ rfl
    unfold NoRoom
    push_cast at hbehind ⊢
    omega

theorem nextInternal_extends (hready : Ready l) (h : Led l lead l')
    (hstate : l'.state = .notInMessageBlock ∨ l'.state = .messageStart) (shouldCommit : Bool)
    (typeId entityId timestamp : ℕ) :
    Extends l (lead ++ blockStart l') (headed l.useEntityId32 (some typeId) entityId timestamp)
      (nextInternal shouldCommit typeId entityId timestamp) l' := by
  have hheaded : headed l.useEntityId32 (some typeId) entityId timestamp =
      (headerPatch l.useEntityId32 typeId entityId timestamp).map fun header ↦
        Draft.start.put header := by
    rw [headed, Option.bind_eq_bind, Option.bind_some]
    cases headerPatch l.useEntityId32 typeId entityId timestamp <;> rfl
  have hsmaller : ∀ (size : ℕ) (d' : Draft), size ≤ (lead ++ blockStart l').length + 4 →
      NoRoom l size → NoRoom l ((lead ++ blockStart l').length + 4 + d'.size) :=
    fun size d' hle hroom ↦ hroom.mono (hle.trans (Nat.le_add_right _ _))
  unfold nextInternal
  rw [Extends, wp_bind]
  apply wp_mono (leaveMessage_led h hstate shouldCommit)
  · rintro - middle ⟨hmiddle, -⟩
    have hworking : middle.interruption = .working := by
      rw [hmiddle.rest]
      exact hready.interruption
    rw [wp_bind, checkWriterInterruption_spec hworking, wp_bind]
    apply wp_mono (openMessage_led hready hmiddle)
    · intro _ opened hopened
      rw [hheaded]
      exact writeHeader_extends hopened typeId entityId timestamp
    · exact fun _ _ hroom d' _ ↦ hsmaller _ d' le_rfl hroom
  · exact fun _ _ hroom d' _ ↦ hsmaller _ d' (Nat.le_add_right _ _) hroom

/-- The number of a type is looked up, and nothing else happens. -/
def Finds (typeId : Option ℕ) (lookup : LoaderM ℕ) (l : TickLoaderImpl) : Prop :=
  wp lookup (fun found l' ↦ typeId = some found ∧ l' = l) (fun _ _ ↦ typeId = none) l

theorem finds_getMessageDescriptorId (userTypeId : ℕ) (l : TickLoaderImpl) :
    Finds (l.typeIdLocal2Remote userTypeId) (getMessageDescriptorId userTypeId) l := by
  unfold Finds getMessageDescriptorId
  rw [wp_bind, wp_get]
  cases hfound : l.typeIdLocal2Remote userTypeId with
  | none => exact rfl
  | some found => exact ⟨rfl, rfl⟩

theorem finds_getMessageDescriptorIdOfName (typeName : List UInt8) (l : TickLoaderImpl) :
    Finds (l.typeIndex typeName) (getMessageDescriptorIdOfName typeName) l := by
  unfold Finds getMessageDescriptorIdOfName
  rw [wp_bind, wp_get]
  cases hfound : l.typeIndex typeName with
  | none => exact rfl
  | some found => exact ⟨rfl, rfl⟩

theorem leadOfSymbol_eq (name : List UInt8) {entered : TickLoaderImpl}
    (hstate : entered.state = if l.IsNew name then .notInMessageBlock else l.state) :
    leadOfSymbol name l = registration name l ++ blockStart entered := by
  unfold leadOfSymbol registration blockStart
  rw [hstate]
  by_cases hnew : l.IsNew name
  · simp only [if_pos hnew, if_true]
  · simp only [if_neg hnew, List.nil_append]

/-- A message is opened for a symbol. -/
theorem openForSymbol_extends (hready : Ready l) (symbolName : List UInt8) {typeId : Option ℕ}
    {lookup : LoaderM ℕ} (hlookup : ∀ l', Led l (registration symbolName l) l' → Finds typeId lookup l')
    (timestamp : ℕ) (shouldCommit : Bool) :
    Extends l (leadOfSymbol symbolName l)
      (if Unwritable symbolName l then none
      else headed l.useEntityId32 typeId (entityIdOf symbolName l) timestamp)
      (do
        let entityId ← getInstrumentId symbolName
        let typeId ← lookup
        nextInternal shouldCommit typeId entityId timestamp) l := by
  rw [Extends, wp_bind]
  apply wp_mono (getInstrumentId_led hready symbolName)
  · rintro entityId entered ⟨hwritable, rfl, hentered, hstate⟩
    have hbetween : entered.state = .notInMessageBlock ∨ entered.state = .messageStart := by
      rw [hstate]
      by_cases hnew : l.IsNew symbolName
      · rw [if_pos hnew]
        exact Or.inl rfl
      · rw [if_neg hnew]
        exact hready.state
    rw [if_neg hwritable, leadOfSymbol_eq symbolName hstate, wp_bind]
    apply wp_mono (hlookup entered hentered)
    · rintro found _ ⟨hfound, rfl⟩
      rw [hfound]
      exact nextInternal_extends hready hentered hbetween shouldCommit found _ timestamp
    · intro _ _ hnone d' hd'
      rw [hnone] at hd'
      cases hd'
  · intro _ entered hroom d' hd'
    by_cases hunwritable : Unwritable symbolName l
    · rw [if_pos hunwritable] at hd'
      cases hd'
    · refine (hroom hunwritable).mono ?_
      have hlength : (registration symbolName l).length ≤ (leadOfSymbol symbolName l).length := by
        unfold registration leadOfSymbol
        by_cases hnew : l.IsNew symbolName
        · rw [if_pos hnew, if_pos hnew]
          simp only [List.length_append]
          omega
        · rw [if_neg hnew]
          exact Nat.zero_le _
      omega

/-- A message is opened for an entity. -/
theorem openForEntity_extends (hready : Ready l) (userTypeId entityId timestamp : ℕ)
    (shouldCommit : Bool) :
    Extends l (blockStart l)
      (if l.instruments.length ≤ entityId then none
      else headed l.useEntityId32 (l.typeIdLocal2Remote userTypeId) entityId timestamp)
      (beginMessageOfEntity userTypeId entityId timestamp shouldCommit) l := by
  unfold beginMessageOfEntity
  rw [Extends, wp_bind]
  apply wp_mono (finds_getMessageDescriptorId userTypeId l)
  · rintro found l' ⟨hfound, hsame⟩
    rw [hsame, wp_bind, wp_get]
    by_cases hunregistered : l.instruments.length ≤ entityId
    · rw [if_pos hunregistered, if_pos hunregistered]
      exact fun d' hnone ↦ absurd hnone (Option.some_ne_none d').symm
    · rw [if_neg hunregistered, if_neg hunregistered, hfound]
      exact nextInternal_extends hready (Led.refl l) hready.state shouldCommit found entityId timestamp
  · intro _ _ hnone d' hd'
    rw [hnone] at hd'
    by_cases hunregistered : l.instruments.length ≤ entityId
    · rw [if_pos hunregistered] at hd'
      cases hd'
    · rw [if_neg hunregistered] at hd'
      cases hd'

/-- Opening a message succeeds exactly if it can be opened wherever the pointer is and there is room
for its header. -/
theorem opener_extends (hready : Ready l) (opener : Opener) :
    Extends l (opener.lead l) (opener.draft l) opener.call.exec l := by
  have hid : ∀ (userTypeId : ℕ) (lead : List UInt8) l', Led l lead l' →
      Finds (l.typeIdLocal2Remote userTypeId) (getMessageDescriptorId userTypeId) l' := by
    intro userTypeId lead l' hl'
    have hsame : l'.typeIdLocal2Remote = l.typeIdLocal2Remote := by rw [hl'.rest]
    rw [← hsame]
    exact finds_getMessageDescriptorId userTypeId l'
  cases opener with
  | next userTypeId symbolName timestamp =>
    exact openForSymbol_extends hready symbolName (hid userTypeId _) timestamp true
  | beginMessage userTypeId symbolName timestamp commitPrevious =>
    exact openForSymbol_extends hready symbolName (hid userTypeId _) timestamp commitPrevious
  | nextOfType typeName symbolName timestamp =>
    refine openForSymbol_extends hready symbolName (fun l' hl' ↦ ?_) timestamp true
    have hsame : l'.typeIndex = l.typeIndex := by rw [hl'.rest]
    rw [← hsame]
    exact finds_getMessageDescriptorIdOfName typeName l'
  | nextOfEntity userTypeId entityId timestamp =>
    exact openForEntity_extends hready userTypeId entityId timestamp true
  | beginMessageOfEntity userTypeId entityId timestamp commitPrevious =>
    exact openForEntity_extends hready userTypeId entityId timestamp commitPrevious

/-! ## Committing it -/

/-- The stream does not take the buffer that is flushed with a message that ends behind `size`
bytes. -/
def Refused (l : TickLoaderImpl) (size : ℕ) : Prop :=
  Flushes (l.messageWriter.dataPtr + size) l ∧
    ¬ l.ioStream.CanWrite (l.messageWriter.dataPtr + size - l.messageWriter.bufferStart).toNat

theorem Writing.messageOpen (h : Writing l lead d l') (hready : Ready l) :
    MessageOpen l'.messageStart l'.messageWriter := by
  have hbuffer := h.buffer hready
  have hptr := h.drafted.dataPtr
  have hwithin := h.within
  have hend := h.dataEnd
  have hstart := h.drafted.start
  refine ⟨hstart, by omega, ?_, ?_, by omega⟩
  · intro level hlevel
    rw [h.drafted.depth] at hlevel
    obtain ⟨hlt, -⟩ := h.sound.header level hlevel
    rw [h.drafted.header level hlevel]
    constructor <;> omega
  · intro point hpoint
    rw [h.drafted.points] at hpoint
    obtain ⟨counted, hcounted, rfl⟩ := List.mem_map.mp hpoint
    have hpositive := (h.sound.points counted hcounted).positive
    change _ < _ + (((l'.messageStart - l'.messageWriter.bufferStart).toNat + counted.blockOffset : ℕ) : ℤ)
    omega

theorem Writing.endPosition (h : Writing l lead d l') :
    l'.endPosition = l.messageWriter.dataPtr + (lead.length + 4 + d.finishedSize : ℕ) := by
  rw [TickLoaderImpl.endPosition, h.drafted.dataPtr, h.drafted.extra 0 (Nat.zero_le _), h.messageStart,
    Draft.finishedSize]
  push_cast
  ring

theorem Writing.finishable_iff (h : Writing l lead d l') :
    Finishable l'.messageStart l'.messageWriter ↔
      d.Finishable ∧ ¬ NoRoom l (lead.length + 4 + d.finishedSize) := by
  have hptr := h.drafted.dataPtr
  have hwithin := h.within
  rw [h.drafted.finishable_iff, h.dataEnd, h.messageStart]
  rw [h.messageStart] at hptr
  refine and_congr_right fun _ ↦ ?_
  unfold NoRoom Draft.finishedSize
  push_cast at hptr ⊢
  constructor
  · intro hfits
    cases hfits with
    | inl hnone => omega
    | inr hle => omega
  · exact fun hroom ↦ Or.inr (by omega)

/-- While the message is open, what was written in front of it is not sent. -/
theorem Writing.uploaded (h : Writing l lead d l') (hready : Ready l) :
    slice l'.messageWriter.mem l.messageWriter.bufferStart (l'.messageStart - 4) =
      slice l.messageWriter.mem l.messageWriter.bufferStart l.messageWriter.dataPtr ++ lead := by
  have hbase := hready.base
  have hfront : l'.messageStart - 4 = l.messageWriter.dataPtr + lead.length := by
    rw [h.messageStart]
    push_cast
    ring
  have hmem : ∀ address < l.messageWriter.dataPtr + lead.length, l'.messageWriter.mem address =
      store l.messageWriter.mem l.messageWriter.dataPtr (lead ++ [0, 0, 0, 0]) address := by
    intro address hlt
    rw [h.drafted.mem, Patch.apply_of_lt (by omega), Patch.data, Patch.apply_word]
  calc slice l'.messageWriter.mem l.messageWriter.bufferStart (l'.messageStart - 4)
      = slice (store l.messageWriter.mem l.messageWriter.dataPtr (lead ++ [0, 0, 0, 0]))
          l.messageWriter.bufferStart (l.messageWriter.dataPtr + lead.length) := by
        rw [hfront]
        exact slice_congr fun address _ hlt ↦ hmem address hlt
    _ = slice (store l.messageWriter.mem l.messageWriter.dataPtr (lead ++ [0, 0, 0, 0]))
            l.messageWriter.bufferStart l.messageWriter.dataPtr ++
          slice (store l.messageWriter.mem l.messageWriter.dataPtr (lead ++ [0, 0, 0, 0]))
            l.messageWriter.dataPtr (l.messageWriter.dataPtr + lead.length) :=
        slice_append _ _ hbase (by omega)
    _ = slice l.messageWriter.mem l.messageWriter.bufferStart l.messageWriter.dataPtr ++ lead := by
        rw [slice_store_before le_rfl, slice_store_append]

/-- The open message can be committed. -/
structure Committable (l : TickLoaderImpl) (lead : List UInt8) (d : Draft) : Prop where
  finishable : d.Finishable
  room : ¬ NoRoom l (lead.length + 4 + d.finishedSize)
  taken : ¬ Refused l (lead.length + 4 + d.finishedSize)

/-- The message is committed exactly if it can be, with the body that `finishMessage` leaves. -/
theorem Writing.commitMessage (h : Writing l lead d l') (hready : Ready l) :
    wp commitMessage
      (fun _ l'' ↦ Committable l lead d ∧ ∃ body : Body, body.val = l'.finishedBody ∧
        l''.uploaded = l.uploaded ++ (lead ++ body.encode))
      (fun _ _ ↦ ¬ Committable l lead d) l' := by
  have hbounded : Bounded l' := by
    have hbuffer := h.buffer hready
    have hwithin := h.within
    have hend := h.dataEnd
    unfold Bounded
    omega
  have hlimit : l'.messageWriter.dataEnd = l'.messageWriter.bufferStart + (maxMessageSize + 56 : ℕ) := by
    rw [h.dataEnd, h.bufferStart, hready.dataEnd]
  have hold : l.uploaded = l.ioStream.handed ++
      slice l.messageWriter.mem l.messageWriter.bufferStart l.messageWriter.dataPtr := by
    have hnotBody : ¬ l.state = .messageBody := by
      cases hready.state with
      | inl hstate => rw [hstate]; exact State.noConfusion
      | inr hstate => rw [hstate]; exact State.noConfusion
    rw [TickLoaderImpl.uploaded, committedEnd, if_neg hnotBody, hready.writePtr]
  unfold Loader.commitMessage endMessage
  rw [wp_bind, wp_get, if_pos h.state, wp_bind]
  apply wp_mono (completeMessage_spec (h.messageOpen hready) hlimit hbounded)
  · rintro _ first ⟨rfl, hfinishable, body, hbody, hcompleted, -⟩
    have hfit := h.finishable_iff.mp hfinishable
    have hrest := hcompleted.rest
    have hstream : first.ioStream = l.ioStream := by rw [hrest, h.rest]
    have hpointer : first.writePtr = l.messageWriter.bufferStart := by
      rw [hrest, h.rest]
      exact hready.writePtr
    have hbuffer : first.messageWriter.bufferStart = l.messageWriter.bufferStart :=
      hcompleted.bufferStart.trans h.bufferStart
    have hconnected : first.connected = true := by
      rw [hrest, h.rest]
      exact hready.connected
    have hinterruption : first.interruption.atMostStopping = true := by
      rw [hrest, h.rest]
      change l.interruption.atMostStopping = true
      rw [hready.interruption]
      rfl
    have hflushes : Flushes l'.endPosition first ↔
        Flushes (l.messageWriter.dataPtr + (lead.length + 4 + d.finishedSize : ℕ)) l := by
      unfold Flushes
      rw [h.endPosition, hbuffer, hrest, h.rest]
    have hbytes : l.ioStream.handed ++
        slice first.messageWriter.mem l.messageWriter.bufferStart first.messageWriter.dataPtr =
        l.uploaded ++ (lead ++ body.encode) := by
      have hmem := hcompleted.mem
      rw [h.bufferStart, h.uploaded hready] at hmem
      rw [hcompleted.dataPtr, hmem, hold, List.append_assoc, List.append_assoc]
    rw [wp_bind]
    apply wp_mono (flushIfNeeded_spec l'.endPosition hconnected hinterruption)
    · rintro - last hlast
      rw [setState, wp_modify]
      by_cases hfull : Flushes l'.endPosition first
      · rw [if_pos hfull] at hlast
        have hcan := hlast.canWrite
        rw [hstream, hcompleted.dataPtr, h.endPosition, hpointer] at hcan
        refine ⟨⟨hfit.1, hfit.2, fun hrefused ↦ hrefused.2 hcan⟩, body, hbody, ?_⟩
        rw [TickLoaderImpl.uploaded, committedEnd, if_neg State.noConfusion, hlast.rest]
        change last.ioStream.handed ++ slice _ first.messageWriter.bufferStart
          first.messageWriter.bufferStart = _
        rw [slice_self, List.append_nil, hlast.handed, hpointer, hstream, hbytes]
      · rw [if_neg hfull] at hlast
        rw [hlast]
        refine ⟨⟨hfit.1, hfit.2, fun hrefused ↦ hfull (hflushes.mpr hrefused.1)⟩, body, hbody, ?_⟩
        rw [TickLoaderImpl.uploaded, committedEnd, if_neg State.noConfusion]
        change first.ioStream.handed ++ slice _ first.writePtr first.messageWriter.dataPtr = _
        rw [hstream, hpointer, hbytes]
    · rintro error last ⟨hfull, hnot⟩ hcommittable
      have hcannot := hnot.cannot
      rw [hstream, hcompleted.dataPtr, h.endPosition, hpointer] at hcannot
      exact hcommittable.taken ⟨hflushes.mp hfull, hcannot⟩
  · rintro error first ⟨hnot, -⟩ hcommittable
    exact hnot (h.finishable_iff.mpr ⟨hcommittable.finishable, hcommittable.room⟩)

end DxApi.Loader
