import DxApi.Loader.Fitting
import DxApi.Loader.Numbering

/-!
# One message in two loaders

Two loaders between messages that differ in what is pending write the same message. Both throw in the
same call, or both commit the same bytes, exactly if the room that the pending bytes leave, the flush
that they bring about and the bytes under the message make no difference.
-/

namespace DxApi.Loader

open Exec ByteMemory ByteOrder Writer Net TickLoaderImpl

variable {l l' : TickLoaderImpl} {lead : List UInt8} {d d' : Draft}

/-! ## The bytes that become the message -/

/-- Where a message starts, behind what was written in front of it and the four bytes of its length. -/
def startOf (lead : List UInt8) (l : TickLoaderImpl) : ℤ :=
  l.messageWriter.dataPtr + (lead.length + 4 : ℕ)

theorem leftovers_over (first second : List UInt8) {s t p q : ℤ} {mem other : Memory}
    (hp : p + first.length ≤ s) (hq : q + second.length ≤ t) :
    d.Leftovers s t ((Patch.data first).apply mem p) ((Patch.data second).apply other q) ↔
      d.Leftovers s t mem other := by
  have hsame : ∀ position : ℕ, (Patch.data first).apply mem p (s + position) = mem (s + position) ∧
      (Patch.data second).apply other q (t + position) = other (t + position) := by
    intro position
    rw [Patch.data, Patch.data, Patch.apply_word, Patch.apply_word]
    exact ⟨store_of_ge (by omega), store_of_ge (by omega)⟩
  unfold Draft.Leftovers
  simp only [(hsame _).1, (hsame _).2]

theorem finishedBody_ok {messageEnd : ℤ} {w : DataWriter}
    (h : finishMessage l.messageStart l.messageWriter = .ok messageEnd w) :
    l.finishedBody = slice w.mem l.messageStart messageEnd := by
  rw [finishedBody, h]

/-- Of one message, written behind different bytes, the same bytes are committed exactly if its
leftovers are the same. -/
theorem Writing.finishedBody_eq_iff {s t : TickLoaderImpl} (h : Writing l lead d s)
    (h' : Writing l' lead d t) (hcommittable : Committable l lead d) (hcommittable' : Committable l' lead d) :
    s.finishedBody = t.finishedBody ↔
      d.Leftovers (startOf lead l) (startOf lead l') l.messageWriter.mem l'.messageWriter.mem := by
  have hroom := (h.drafted.finishable_iff.mp
    (h.finishable_iff.mpr ⟨hcommittable.finishable, hcommittable.room⟩)).2
  have hroom' := (h'.drafted.finishable_iff.mp
    (h'.finishable_iff.mpr ⟨hcommittable'.finishable, hcommittable'.room⟩)).2
  have hsame := h.drafted.finishMessage_sameBytes h'.drafted h.sound hcommittable.finishable hroom hroom'
  have hover := @leftovers_over d (lead ++ [0, 0, 0, 0]) (lead ++ [0, 0, 0, 0]) (startOf lead l)
    (startOf lead l') l.messageWriter.dataPtr l'.messageWriter.dataPtr l.messageWriter.mem
    l'.messageWriter.mem (by simp [startOf]) (by simp [startOf])
  cases hrun : finishMessage s.messageStart s.messageWriter with
  | error error w => rw [wp_error hrun] at hsame; exact hsame.elim
  | ok messageEnd w =>
    rw [wp_ok hrun] at hsame
    cases hrun' : finishMessage t.messageStart t.messageWriter with
    | error error v => rw [wp_error hrun'] at hsame; exact hsame.2.elim
    | ok messageEnd' v =>
      rw [wp_ok hrun'] at hsame
      rw [finishedBody_ok hrun, finishedBody_ok hrun', hsame.2.2, h.messageStart, h'.messageStart]
      exact hover

/-! ## Two loaders -/

/-- The draft after some writes. -/
def Draft.writes : List BodyWrite → Draft → Option Draft
  | [], d => some d
  | write :: rest, d => (d.write write).bind (Draft.writes rest)

theorem Draft.size_write {write : BodyWrite} (h : d.write write = some d') : d.size ≤ d'.size := by
  have hopened : ∀ {isArray : Bool} {opened : Draft}, d.openContainer isArray = some opened →
      d.size ≤ opened.size := by
    intro isArray opened hopened
    unfold Draft.openContainer at hopened
    by_cases hdeep : loaderMaxNestedObjects ≤ d.depth
    · rw [if_pos hdeep] at hopened
      cases hopened
    · rw [if_neg hdeep] at hopened
      rw [← Option.some.inj hopened]
      exact size_put (d.entered isArray) _
  have hclosed : ∀ {isArray : Bool}, d.closeContainer isArray = some d' → d.size ≤ d'.size := by
    intro isArray hclosed
    unfold Draft.closeContainer at hclosed
    cases hdepth : d.depth with
    | zero =>
      rw [hdepth] at hclosed
      cases hclosed
    | succ depth =>
      simp only [hdepth] at hclosed
      by_cases hother : d.containerIsArray depth ≠ isArray
      · rw [if_pos hother] at hclosed
        cases hclosed
      · rw [if_neg hother] at hclosed
        by_cases hlong : 0x80 ≤ d.closedLength depth
        · rw [if_pos hlong] at hclosed
          rw [← Option.some.inj hclosed]
          exact le_rfl
        · rw [if_neg hlong] at hclosed
          rw [← Option.some.inj hclosed]
          exact le_rfl
  cases write with
  | leaf write =>
    obtain ⟨patch, -, hd'⟩ := Option.map_eq_some_iff.mp h
    rw [← hd']
    exact size_put d patch
  | arrayStart nItems =>
    obtain ⟨opened, hopen, hd'⟩ := Option.map_eq_some_iff.mp h
    rw [← hd']
    exact (hopened hopen).trans (size_put opened _)
  | objectStart typeIndex =>
    obtain ⟨opened, hopen, hd'⟩ := Option.map_eq_some_iff.mp h
    rw [← hd']
    exact (hopened hopen).trans (size_put opened _)
  | arrayEnd | objectEnd => exact hclosed h

theorem Draft.size_writes {writes : List BodyWrite} (h : Draft.writes writes d = some d') :
    d.size ≤ d'.size := by
  induction writes generalizing d with
  | nil => exact (congrArg (fun draft : Draft ↦ draft.size) (Option.some.inj h)).le
  | cons write rest ih =>
    obtain ⟨next, hnext, hrest⟩ := Option.bind_eq_some_iff.mp h
    exact (Draft.size_write hnext).trans (ih hrest)

/-- Both runs throw in the same call, or both return and add the same bytes to the upload. -/
def AlikeFrom (l l' : TickLoaderImpl) (programs : List (LoaderM Unit)) (s t : TickLoaderImpl) : Prop :=
  returned programs s = returned programs t ∧
    (returned programs s = programs.length → ∃ added,
      (runEach programs s).uploaded = l.uploaded ++ added ∧
      (runEach programs t).uploaded = l'.uploaded ++ added)

/-- Both loaders have room for the message after each of its calls, or neither; both can commit it, or
neither; and the bytes that it does not store are the same. -/
structure SameVerdict (l l' : TickLoaderImpl) (lead : List UInt8) (writes : List BodyWrite)
    (opened : Option Draft) : Prop where
  room : ∀ n d, opened.bind (Draft.writes (writes.take n)) = some d →
    (NoRoom l (lead.length + 4 + d.size) ↔ NoRoom l' (lead.length + 4 + d.size))
  committable : ∀ d, opened.bind (Draft.writes writes) = some d →
    (Committable l lead d ↔ Committable l' lead d)
  leftovers : ∀ d, opened.bind (Draft.writes writes) = some d → Committable l lead d →
    d.Leftovers (startOf lead l) (startOf lead l') l.messageWriter.mem l'.messageWriter.mem

variable {s t : TickLoaderImpl} {writes : List BodyWrite}

theorem Writing.room (h : Writing l lead d s) : ¬ NoRoom l (lead.length + 4 + d.size) := by
  have hptr := h.drafted.dataPtr
  have hwithin := h.within
  rw [h.messageStart] at hptr
  unfold NoRoom
  push_cast at hptr ⊢
  omega

theorem Committable.room_size (h : Committable l lead d) : ¬ NoRoom l (lead.length + 4 + d.size) := by
  intro hroom
  refine h.room (hroom.mono ?_)
  rw [Draft.finishedSize]
  omega

/-- Without room for the draft there is none for what is written after it. -/
theorem NoRoom.afterWrites (h : NoRoom l (lead.length + 4 + d.size)) (hwrites : Draft.writes writes d = some d') :
    NoRoom l (lead.length + 4 + d'.size) :=
  h.mono (Nat.add_le_add_left (Draft.size_writes hwrites) _)

/-- A call that opens or continues the message, with the calls after it. -/
theorem alikeFrom_cons {opened : Option Draft} {program : LoaderM Unit} {rest : List (LoaderM Unit)}
    (h : Extends l lead opened program s) (h' : Extends l' lead opened program t)
    (hrest : ∀ d s t, Writing l lead d s → Writing l' lead d t →
      (AlikeFrom l l' rest s t ↔ SameVerdict l l' lead writes (some d))) :
    AlikeFrom l l' (program :: rest) s t ↔ SameVerdict l l' lead writes opened := by
  unfold Extends at h h'
  cases hrun : program s with
  | ok value s' =>
    rw [wp_ok hrun] at h
    obtain ⟨d, hopened, hs'⟩ := h
    cases hrun' : program t with
    | ok value' t' =>
      rw [wp_ok hrun'] at h'
      obtain ⟨d', hopened', ht'⟩ := h'
      obtain rfl : d = d' := Option.some.inj (hopened.symm.trans hopened')
      rw [hopened, ← hrest d s' t' hs' ht', AlikeFrom, AlikeFrom, returned_of_ok hrun,
        returned_of_ok hrun', runEach_of_ok hrun, runEach_of_ok hrun', List.length_cons,
        Nat.add_right_cancel_iff, Nat.add_right_cancel_iff]
    | error error t' =>
      rw [wp_error hrun'] at h'
      constructor
      · intro halike
        have hcount := halike.1
        rw [returned_of_ok hrun, returned_of_error hrun'] at hcount
        exact absurd hcount (Nat.succ_ne_zero _)
      · intro hsame
        have hroom := hsame.room 0 d (by rw [hopened]; rfl)
        exact absurd (hroom.mpr (h' d hopened)) hs'.room
  | error error s' =>
    rw [wp_error hrun] at h
    cases hrun' : program t with
    | ok value' t' =>
      rw [wp_ok hrun'] at h'
      obtain ⟨d, hopened, ht'⟩ := h'
      constructor
      · intro halike
        have hcount := halike.1
        rw [returned_of_error hrun, returned_of_ok hrun'] at hcount
        exact absurd hcount.symm (Nat.succ_ne_zero _)
      · intro hsame
        have hroom := hsame.room 0 d (by rw [hopened]; rfl)
        exact absurd (hroom.mp (h d hopened)) ht'.room
    | error error' t' =>
      rw [wp_error hrun'] at h'
      have hnone : ∀ {writes : List BodyWrite} {d : Draft}, opened.bind (Draft.writes writes) = some d →
          NoRoom l (lead.length + 4 + d.size) ∧ NoRoom l' (lead.length + 4 + d.size) := by
        intro writes d hd
        obtain ⟨first, hfirst, hwrites⟩ := Option.bind_eq_some_iff.mp hd
        exact ⟨(h first hfirst).afterWrites hwrites, (h' first hfirst).afterWrites hwrites⟩
      constructor
      · intro _
        refine ⟨fun n d hd ↦ ?_, fun d hd ↦ ?_, fun d hd hcommittable ↦ ?_⟩
        · exact iff_of_true (hnone hd).1 (hnone hd).2
        · exact iff_of_false (fun hc ↦ hc.room_size (hnone hd).1) fun hc ↦ hc.room_size (hnone hd).2
        · exact absurd (hnone hd).1 hcommittable.room_size
      · intro _
        rw [AlikeFrom, returned_of_error hrun, returned_of_error hrun']
        exact ⟨rfl, fun hall ↦ absurd hall.symm (Nat.succ_ne_zero _)⟩

/-- The call that commits the message. -/
theorem alikeFrom_commit (hready : Ready l) (hready' : Ready l') (h : Writing l lead d s)
    (h' : Writing l' lead d t) :
    AlikeFrom l l' [commitMessage] s t ↔ SameVerdict l l' lead [] (some d) := by
  have hcommit := h.commitMessage hready
  have hcommit' := h'.commitMessage hready'
  have hroom : ∀ n d', (some d).bind (Draft.writes (([] : List BodyWrite).take n)) = some d' →
      (NoRoom l (lead.length + 4 + d'.size) ↔ NoRoom l' (lead.length + 4 + d'.size)) := by
    intro n d' hd'
    rw [List.take_nil] at hd'
    rw [← Option.some.inj hd']
    exact iff_of_false h.room h'.room
  cases hrun : Loader.commitMessage s with
  | ok value s' =>
    rw [wp_ok hrun] at hcommit
    obtain ⟨hcommittable, body, hbody, huploaded⟩ := hcommit
    cases hrun' : Loader.commitMessage t with
    | ok value' t' =>
      rw [wp_ok hrun'] at hcommit'
      obtain ⟨hcommittable', body', hbody', huploaded'⟩ := hcommit'
      have hsame := h.finishedBody_eq_iff h' hcommittable hcommittable'
      rw [AlikeFrom, returned_of_ok hrun, returned_of_ok hrun', runEach_of_ok hrun, runEach_of_ok hrun']
      change _ ∧ (_ → ∃ added, s'.uploaded = _ ∧ t'.uploaded = _) ↔ _
      rw [huploaded, huploaded']
      constructor
      · rintro ⟨-, hadded⟩
        obtain ⟨added, hadded, hadded'⟩ := hadded rfl
        have hencode : body.encode = body'.encode := by
          have hleft := List.append_cancel_left hadded
          have hright := List.append_cancel_left hadded'
          exact List.append_cancel_left (hleft.trans hright.symm)
        have hbodies : body.val = body'.val :=
          (List.append_inj hencode (by rw [length_bigEndian, length_bigEndian])).2
        refine ⟨hroom, fun d' hd' ↦ ?_, fun d' hd' _ ↦ ?_⟩
        · rw [← Option.some.inj hd']
          exact iff_of_true hcommittable hcommittable'
        · rw [← Option.some.inj hd']
          exact hsame.mp (hbody.symm.trans (hbodies.trans hbody'))
      · intro hverdict
        have hbodies : body.val = body'.val :=
          hbody.trans ((hsame.mpr (hverdict.leftovers d rfl hcommittable)).trans hbody'.symm)
        refine ⟨rfl, fun _ ↦ ⟨lead ++ body.encode, rfl, ?_⟩⟩
        rw [Body.encode, Body.encode, hbodies]
    | error error t' =>
      rw [wp_error hrun'] at hcommit'
      constructor
      · intro halike
        have hcount := halike.1
        rw [returned_of_ok hrun, returned_of_error hrun'] at hcount
        exact absurd hcount (Nat.succ_ne_zero _)
      · intro hverdict
        exact absurd ((hverdict.committable d rfl).mp hcommittable) hcommit'
  | error error s' =>
    rw [wp_error hrun] at hcommit
    cases hrun' : Loader.commitMessage t with
    | ok value' t' =>
      rw [wp_ok hrun'] at hcommit'
      constructor
      · intro halike
        have hcount := halike.1
        rw [returned_of_error hrun, returned_of_ok hrun'] at hcount
        exact absurd hcount.symm (Nat.succ_ne_zero _)
      · intro hverdict
        exact absurd ((hverdict.committable d rfl).mpr hcommit'.1) hcommit
    | error error' t' =>
      rw [wp_error hrun'] at hcommit'
      constructor
      · intro _
        refine ⟨hroom, fun d' hd' ↦ ?_, fun d' hd' hc ↦ ?_⟩
        · rw [← Option.some.inj hd']
          exact iff_of_false hcommit hcommit'
        · rw [← Option.some.inj hd'] at hc
          exact absurd hc hcommit
      · intro _
        rw [AlikeFrom, returned_of_error hrun, returned_of_error hrun']
        exact ⟨rfl, fun hall ↦ absurd hall.symm (Nat.succ_ne_zero _)⟩

/-- The draft that is there already has room in both. -/
theorem sameVerdict_cons (h : ¬ NoRoom l (lead.length + 4 + d.size))
    (h' : ¬ NoRoom l' (lead.length + 4 + d.size)) (write : BodyWrite) (writes : List BodyWrite) :
    SameVerdict l l' lead (write :: writes) (some d) ↔ SameVerdict l l' lead writes (d.write write) := by
  constructor
  · exact fun hverdict ↦ ⟨fun n ↦ hverdict.room (n + 1), hverdict.committable, hverdict.leftovers⟩
  · intro hverdict
    refine ⟨fun n d' hd' ↦ ?_, hverdict.committable, hverdict.leftovers⟩
    cases n with
    | zero =>
      rw [← Option.some.inj hd']
      exact iff_of_false h h'
    | succ n => exact hverdict.room n d' hd'

/-- The rest of a message that is open in both loaders. -/
theorem alikeFrom_writes (hready : Ready l) (hready' : Ready l') (h : Writing l lead d s)
    (h' : Writing l' lead d t) :
    AlikeFrom l l' ((writes.map fun write ↦ onWriter write.exec) ++ [commitMessage]) s t ↔
      SameVerdict l l' lead writes (some d) := by
  induction writes generalizing d s t with
  | nil => exact alikeFrom_commit hready hready' h h'
  | cons write writes ih =>
    rw [sameVerdict_cons h.room h'.room]
    exact alikeFrom_cons (h.write hready write) (h'.write hready' write) fun _ _ _ ↦ ih

/-- The calls that form one message. -/
structure Message where
  opener : Opener
  writes : List BodyWrite

def Message.calls (m : Message) : List (LoaderM Unit) :=
  m.opener.call.exec :: ((m.writes.map fun write ↦ onWriter write.exec) ++ [commitMessage])

/-- Two loaders between messages that agree on everything that decides what a message looks like. What
is pending, what was sent and the stream may differ. -/
structure Twins (l l' : TickLoaderImpl) : Prop where
  state : l'.state = l.state
  useEntityId32 : l'.useEntityId32 = l.useEntityId32
  instruments : l'.instruments = l.instruments
  typeIndex : l'.typeIndex = l.typeIndex
  typeIdLocal2Remote : l'.typeIdLocal2Remote = l.typeIdLocal2Remote

theorem Twins.isNew_iff (h : Twins l l') (name : List UInt8) : l'.IsNew name ↔ l.IsNew name := by
  rw [TickLoaderImpl.IsNew, TickLoaderImpl.IsNew, h.instruments]

theorem Twins.lead_eq (h : Twins l l') (opener : Opener) : opener.lead l' = opener.lead l := by
  have hsymbol : ∀ name, leadOfSymbol name l' = leadOfSymbol name l := by
    intro name
    have hnew := h.isNew_iff name
    have hstart : blockStart l' = blockStart l := by rw [blockStart, blockStart, h.state]
    have hend : blockEnd l' = blockEnd l := by rw [blockEnd, blockEnd, h.state]
    rw [leadOfSymbol, leadOfSymbol, hstart, hend]
    by_cases hname : l.IsNew name
    · rw [if_pos hname, if_pos (hnew.mpr hname)]
    · rw [if_neg hname, if_neg (mt hnew.mp hname)]
  cases opener with
  | next userTypeId symbolName | nextOfType typeName symbolName | beginMessage userTypeId symbolName =>
    exact hsymbol symbolName
  | nextOfEntity | beginMessageOfEntity =>
    change blockStart l' = blockStart l
    rw [blockStart, blockStart, h.state]

theorem Twins.draft_eq (h : Twins l l') (opener : Opener) : opener.draft l' = opener.draft l := by
  have hsymbol : ∀ name typeId timestamp,
      (if Unwritable name l' then none
      else headed l'.useEntityId32 typeId (entityIdOf name l') timestamp) =
        if Unwritable name l then none
        else headed l.useEntityId32 typeId (entityIdOf name l) timestamp := by
    intro name typeId timestamp
    have hnew := h.isNew_iff name
    have hsame : Unwritable name l' ↔ Unwritable name l := by rw [Unwritable, Unwritable, hnew]
    have hid : entityIdOf name l' = entityIdOf name l := by
      rw [entityIdOf, entityIdOf, h.instruments]
      by_cases hname : l.IsNew name
      · rw [if_pos hname, if_pos (hnew.mpr hname)]
      · rw [if_neg hname, if_neg (mt hnew.mp hname)]
    by_cases hunwritable : Unwritable name l
    · rw [if_pos hunwritable, if_pos (hsame.mpr hunwritable)]
    · rw [if_neg hunwritable, if_neg (mt hsame.mp hunwritable), hid, h.useEntityId32]
  cases opener with
  | next userTypeId symbolName timestamp | beginMessage userTypeId symbolName timestamp =>
    rw [Opener.draft, Opener.draft, h.typeIdLocal2Remote]
    exact hsymbol symbolName _ timestamp
  | nextOfType typeName symbolName timestamp =>
    rw [Opener.draft, Opener.draft, h.typeIndex]
    exact hsymbol symbolName _ timestamp
  | nextOfEntity | beginMessageOfEntity =>
    rw [Opener.draft, Opener.draft, h.typeIdLocal2Remote, h.instruments, h.useEntityId32]

/-- A loader between its messages is ready for the next one. -/
theorem Consistent.ready {request : List UInt8} (h : Consistent request l)
    (hclosed : l.state ≠ .messageBody) : Ready l := by
  obtain ⟨u, hrefines, -⟩ := h.upload
  have hwriting := hrefines.writing
  have hbase := hrefines.base
  rw [committedEnd, if_neg hclosed] at hbase
  refine ⟨?_, h.working, hrefines.connected, hrefines.writePtr, hbase, hrefines.dataEnd⟩
  cases hstate : l.state with
  | notInMessageBlock => exact Or.inl rfl
  | messageStart => exact Or.inr rfl
  | messageBody => exact absurd hstate hclosed
  | notInitialized | finishedWriting =>
    rw [hstate] at hwriting
    cases hwriting

/-- A message meets the same fate in both loaders. -/
def Alike (m : Message) (l l' : TickLoaderImpl) : Prop := AlikeFrom l l' m.calls l l'

/-- A message meets the same fate behind different pending bytes exactly if the room that they leave,
the flush that they bring about and the bytes under the message make no difference. -/
theorem alike_iff (m : Message) (hready : Ready l) (hready' : Ready l') (htwins : Twins l l') :
    Alike m l l' ↔ SameVerdict l l' (m.opener.lead l) m.writes (m.opener.draft l) := by
  have hsecond := opener_extends hready' m.opener
  rw [htwins.lead_eq, htwins.draft_eq] at hsecond
  exact alikeFrom_cons (opener_extends hready m.opener) hsecond
    fun _ _ _ hwriting hwriting' ↦ alikeFrom_writes hready hready' hwriting hwriting'

/-! ## Behind a short message -/

/-- The bytes that wait in the buffer. -/
def pending (l : TickLoaderImpl) : List UInt8 :=
  slice l.messageWriter.mem l.writePtr l.messageWriter.dataPtr

/-- A loader that has committed a message, which waits in its buffer. -/
def waiting : TickLoaderImpl :=
  runAll [.next 0 [65] 0, .field (.utf8 (List.replicate 40 0)), .commitMessage] (openedLoader 0x2000)

/-- The same loader, flushed. -/
def flushed : TickLoaderImpl :=
  runAll [.next 0 [65] 0, .field (.utf8 (List.replicate 40 0)), .commitMessage, .flush]
    (openedLoader 0x2000)

theorem waiting_ready : Ready waiting := by
  refine ⟨Or.inr ?_, ?_, ?_, ?_, ?_, ?_⟩ <;> decide +kernel

theorem flushed_ready : Ready flushed := by
  refine ⟨Or.inr ?_, ?_, ?_, ?_, ?_, ?_⟩ <;> decide +kernel

theorem waiting_flushed : Twins waiting flushed := ⟨rfl, rfl, rfl, rfl, rfl⟩

/-- A short message meets the same fate. -/
def shortMessage : Message := ⟨.next 0 [65] 1, [.leaf (.utf8 [66, 67])]⟩

theorem alike_short : SameVerdict waiting flushed [] [.leaf (.utf8 [66, 67])]
    (shortMessage.opener.draft waiting) := by
  have halike : Alike shortMessage waiting flushed := by
    refine ⟨by decide +kernel, fun _ ↦ ?_⟩
    have hwaiting : (runEach shortMessage.calls waiting).uploaded = waiting.uploaded ++
        [0, 0, 0, 15, 0, 0, 0, 0, 0, 0, 0, 1, 0, 0, 0, 0, 2, 66, 67] := by decide +kernel
    have hflushed : (runEach shortMessage.calls flushed).uploaded = flushed.uploaded ++
        [0, 0, 0, 15, 0, 0, 0, 0, 0, 0, 0, 1, 0, 0, 0, 0, 2, 66, 67] := by decide +kernel
    exact ⟨_, hwaiting, hflushed⟩
  exact (alike_iff shortMessage waiting_ready flushed_ready waiting_flushed).mp halike

/-- A binary value of `size` zero bytes. -/
def binaryOf (size : ℕ) : BodyWrite := .leaf (.binaryArray (List.replicate size 0))

theorem size_binaryOf (d : Draft) {size : ℕ} (hsize : size < 2 ^ 32) :
    ∃ d', d.write (binaryOf size) = some d' ∧
      d'.size = d.size + (1 + ((Nat.size (size / (0x100 / 4)) + 7) / 8 + 1 + size)) := by
  refine ⟨_, rfl, ?_⟩
  have hlength : (List.replicate size (0 : UInt8)).length % 2 ^ 32 = size := by
    rw [List.length_replicate, Nat.mod_eq_of_lt hsize]
  change d.size + (1 + ((Nat.size ((List.replicate size (0 : UInt8)).length % 2 ^ 32 / (0x100 / 4)) + 7) / 8
    + 1 + (List.replicate size (0 : UInt8)).length)) = _
  rw [hlength, List.length_replicate]

/-- A message of the greatest size. -/
def greatestMessage : Message := ⟨.next 0 [65] 1, [binaryOf (maxMessageSize - 15)]⟩

/-- What differs is only what is pending, and that is less than a chunk. -/
structure DifferInPending (l l' : TickLoaderImpl) : Prop extends Twins l l' where
  uploaded : l'.uploaded = l.uploaded
  minChunkSize : l'.minChunkSize = l.minChunkSize
  nMsgWritten : l'.nMsgWritten = l.nMsgWritten
  short : (pending l).length < l.minChunkSize
  short' : (pending l').length < l.minChunkSize

theorem waiting_differ : DifferInPending waiting flushed := by
  refine ⟨waiting_flushed, ?_, rfl, rfl, ?_, ?_⟩ <;> decide +kernel

/-- The greatest message fits in an empty buffer, and not behind a short message. -/
theorem greatest_message_depends_on_pending :
    ¬ ∀ (m : Message) (l l' : TickLoaderImpl) (calls calls' : List Call),
      l = runAll calls (openedLoader 0x2000) → l' = runAll calls' (openedLoader 0x2000) →
      Ready l → Ready l' → DifferInPending l l' → Alike m l l' := by
  intro hall
  have halike := hall greatestMessage waiting flushed _ _ rfl rfl waiting_ready flushed_ready
    waiting_differ
  have hverdict : SameVerdict waiting flushed [] greatestMessage.writes
      (greatestMessage.opener.draft waiting) :=
    (alikeFrom_cons (opener_extends waiting_ready greatestMessage.opener)
      (opener_extends flushed_ready greatestMessage.opener)
      fun _ _ _ hwriting hwriting' ↦
        alikeFrom_writes waiting_ready flushed_ready hwriting hwriting').mp halike
  have hopened : ∃ d, greatestMessage.opener.draft waiting = some d ∧ d.size = 11 := ⟨_, rfl, rfl⟩
  obtain ⟨opened, hopened, hheader⟩ := hopened
  obtain ⟨d, hd, hsize⟩ := @size_binaryOf opened (maxMessageSize - 15) (by decide)
  have hbytes : d.size = maxMessageSize := by
    rw [hsize, hheader]
    decide +kernel
  have hroom := hverdict.room 1 d (by rw [hopened]; exact congrArg (fun d ↦ d.bind some) hd)
  rw [hbytes, List.length_nil] at hroom
  have hfits : ¬ NoRoom flushed (0 + 4 + maxMessageSize) := by
    unfold NoRoom
    decide +kernel
  have hover : NoRoom waiting (0 + 4 + maxMessageSize) := by
    unfold NoRoom
    decide +kernel
  exact hfits (hroom.mp hover)

end DxApi.Loader
