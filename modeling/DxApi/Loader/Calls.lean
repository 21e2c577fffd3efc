import DxApi.Loader.Moves

/-!
# The calls of a client

One lemma for each call of the interface, and `Call.exec_spec` for all of them: a call that returns
adds to the upload the message that it ends, if it ends one, and keeps the numbers of the
instruments; `Call.Recoverable` says when this is so of a call that throws, too.
-/

namespace DxApi.Loader

open Exec ByteMemory ByteOrder Writer Net TickLoaderImpl

variable {request : List UInt8} {l l' : TickLoaderImpl} {u u' : Upload}

/-! ## Committing and flushing -/

theorem commitMessage_spec (h : Refines request l u) (hbounded : l.state = .messageBody → Bounded l) :
    wp commitMessage
      (fun _ l' ↦ ∃ u', Moved request l.endedBody l l' u u' ∧ (InBuffer l → InBuffer l'))
      (fun _ l' ↦ Balanced l.messageWriter → Moved request [] l l' u u) l := by
  unfold commitMessage
  rw [wp_bind, wp_get]
  by_cases hbody : l.state = .messageBody
  · obtain ⟨bodies, hcurrent⟩ := h.current (by rw [hbody]; rfl)
    rw [if_pos hbody, endedBody, if_pos hbody]
    apply wp_mono (endMessage_spec h hbody (hbounded hbody))
    · rintro - l' ⟨-, body, hfinished, hrefines, -, hsame, -, hin⟩
      refine ⟨_, ⟨hrefines, Upload.symbols_putMessage body, ?_, hsame⟩, hin⟩
      rw [Upload.messages_putMessage hcurrent, hfinished]
    · rintro error l' ⟨-, hkept⟩ hbalanced
      obtain ⟨hrefines, -, hsame⟩ := hkept hbalanced
      exact ⟨hrefines, rfl, (List.append_nil _).symm, hsame⟩
  · rw [if_neg hbody, endedBody, if_neg hbody]
    exact ⟨u, ⟨h, rfl, (List.append_nil _).symm, Same.refl l⟩, id⟩

theorem Flushed.refines (hflushed : Flushed l l') (h : Refines request l u)
    (hstate : l.state ≠ .messageBody) : Refines request l' u := by
  have hrest := hflushed.rest
  have huploaded := h.uploaded
  rw [TickLoaderImpl.uploaded, committedEnd, if_neg hstate] at huploaded
  have hstate' : l'.state = l.state := by rw [hrest]
  have hnotBody : l'.state ≠ .messageBody := by rwa [hstate']
  have hstart : l'.messageWriter.dataPtr = l'.messageWriter.bufferStart := by rw [hrest]
  have hpointer : l'.writePtr = l'.messageWriter.bufferStart := by rw [hrest]
  refine ⟨?_, ?_, hpointer, ?_, ?_, fun hbody ↦ absurd hbody hnotBody, ?_, ?_, ?_, ?_⟩
  · rw [hstate']
    exact h.writing
  · rw [hstate']
    exact h.block
  · rw [committedEnd, if_neg hnotBody]
    exact hstart.ge
  · rw [TickLoaderImpl.uploaded, committedEnd, if_neg hnotBody, hstart, hpointer, slice_self,
      List.append_nil, hflushed.handed, huploaded]
  · rw [hrest]
    exact h.connected
  · rw [hflushed.outputClosed]
    exact h.outputClosed
  · rw [hrest]
    exact h.interruption
  · rw [hrest]
    exact h.dataEnd

theorem Flushed.same (hflushed : Flushed l l') : Same l l' := by
  have hrest := hflushed.rest
  refine ⟨?_, ?_, ?_, ?_, ?_⟩ <;> rw [hrest]

theorem NotFlushed.refines (hnot : NotFlushed l l') (h : Refines request l u) : Refines request l' u := by
  have hrest := hnot.rest
  have hstate : l'.state = l.state := by rw [hrest]
  have hwriter : l'.messageWriter = l.messageWriter := by rw [hrest]
  have hstart : l'.messageStart = l.messageStart := by rw [hrest]
  have hpointer : l'.writePtr = l.writePtr := by rw [hrest]
  have hend : l'.committedEnd = l.committedEnd := by
    rw [committedEnd, committedEnd, hstate, hwriter, hstart]
  refine ⟨?_, ?_, ?_, ?_, ?_, ?_, ?_, ?_, ?_, ?_⟩
  · rw [hstate]
    exact h.writing
  · rw [hstate]
    exact h.block
  · rw [hpointer, hwriter]
    exact h.writePtr
  · rw [hend, hwriter]
    exact h.base
  · rw [TickLoaderImpl.uploaded, hnot.handed, hend, hwriter, hpointer]
    exact h.uploaded
  · rw [hstate, hstart, hwriter]
    exact h.message
  · rw [hrest]
    exact h.connected
  · rw [hnot.outputClosed]
    exact h.outputClosed
  · rw [hrest]
    exact h.interruption
  · rw [hwriter]
    exact h.dataEnd

theorem NotFlushed.same (hnot : NotFlushed l l') : Same l l' := by
  have hrest := hnot.rest
  refine ⟨?_, ?_, ?_, ?_, ?_⟩ <;> rw [hrest]

theorem flush_spec (h : Refines request l u) :
    wp flush (fun _ l' ↦ Moved request [] l l' u u ∧ (InBuffer l → InBuffer l'))
      (fun _ l' ↦ Moved request [] l l' u u) l := by
  unfold flush
  rw [wp_bind, wp_get]
  by_cases hstart : l.state = .messageStart
  · have hnotBody : l.state ≠ .messageBody := by
      rw [hstart]
      exact State.noConfusion
    rw [if_pos hstart]
    apply wp_mono (flushOutput_spec h.connected h.interruption)
    · intro _ l' hflushed
      have hrefines := hflushed.refines h hnotBody
      refine ⟨⟨hrefines, rfl, (List.append_nil _).symm, hflushed.same⟩, fun _ ↦ ?_⟩
      have hptr : l'.messageWriter.dataPtr = l'.messageWriter.bufferStart := by rw [hflushed.rest]
      have hend := hrefines.dataEnd
      unfold InBuffer
      omega
    · intro error l' hnot
      exact ⟨hnot.refines h, rfl, (List.append_nil _).symm, hnot.same⟩
  · rw [if_neg hstart, wp_pure]
    exact ⟨⟨h, rfl, (List.append_nil _).symm, Same.refl l⟩, id⟩

/-! ## Lookups -/

theorem getMessageDescriptorId_spec (typeId : ℕ) (l : TickLoaderImpl) :
    wp (getMessageDescriptorId typeId)
      (fun _ l' ↦ l' = l ∧ l.typeIdLocal2Remote typeId ≠ none)
      (fun _ l' ↦ l' = l ∧ l.typeIdLocal2Remote typeId = none) l := by
  unfold getMessageDescriptorId
  rw [wp_bind, wp_get]
  cases hlookup : l.typeIdLocal2Remote typeId with
  | some messageTypeId => exact ⟨rfl, Option.some_ne_none messageTypeId⟩
  | none => exact ⟨rfl, rfl⟩

theorem getMessageDescriptorIdOfName_spec (typeName : List UInt8) (l : TickLoaderImpl) :
    wp (getMessageDescriptorIdOfName typeName)
      (fun _ l' ↦ l' = l ∧ l.typeIndex typeName ≠ none)
      (fun _ l' ↦ l' = l ∧ l.typeIndex typeName = none) l := by
  unfold getMessageDescriptorIdOfName
  rw [wp_bind, wp_get]
  cases hlookup : l.typeIndex typeName with
  | some messageTypeId => exact ⟨rfl, Option.some_ne_none messageTypeId⟩
  | none => exact ⟨rfl, rfl⟩

/-! ## Beginning a message -/

/-- `next` and `beginMessage` with a symbol can be called: a new symbol can be registered, and if the
message type is known, there is room for the start of the message. -/
structure CanBegin (symbolName : List UInt8) (shouldCommit : Bool) (typeKnown : Prop)
    (l : TickLoaderImpl) : Prop where
  canOpen : symbolName ∈ l.instruments → typeKnown → CanOpen shouldCommit l
  canRegister : symbolName ∉ l.instruments → CanRegister symbolName l
  room : symbolName ∉ l.instruments → typeKnown →
    l.blockPosition + (3 + symbolName.length : ℕ) + 5 ≤ l.messageWriter.dataEnd

/-- All variants of `next` and `beginMessage` with a symbol; they look up the type differently. -/
theorem begin_spec {lookup : LoaderM ℕ} (typeKnown : TickLoaderImpl → Prop)
    (hlookup : ∀ l, wp lookup (fun _ l' ↦ l' = l ∧ typeKnown l) (fun _ l' ↦ l' = l ∧ ¬ typeKnown l) l)
    (htype : ∀ l', l'.typeIndex = l.typeIndex → l'.typeIdLocal2Remote = l.typeIdLocal2Remote →
      typeKnown l' → typeKnown l)
    (h : Refines request l u) (hworking : l.interruption = .working)
    (hbounded : l.state = .messageBody → Bounded l) (symbolName : List UInt8) (timestamp : ℕ)
    (shouldCommit : Bool) :
    wp (do
        let entityId ← getInstrumentId symbolName
        let typeId ← lookup
        nextInternal shouldCommit typeId entityId timestamp)
      (fun _ l' ↦ ∃ u', Advanced request
        (l.endedIf (shouldCommit = true ∨ l.IsNew symbolName)) l l' u u' ∧ InBuffer l')
      (fun _ l' ↦ CanBegin symbolName shouldCommit (typeKnown l) l →
        ∃ bodies u', Advanced request bodies l l' u u') l := by
  rw [wp_bind]
  apply wp_mono (getInstrumentId_spec h hworking hbounded symbolName)
  · rintro entityId first ⟨-, hfirst⟩
    rw [wp_bind]
    by_cases hknown : symbolName ∈ l.instruments
    · rw [if_pos hknown] at hfirst
      rw [hfirst]
      have hended : l.endedIf (shouldCommit = true ∨ l.IsNew symbolName) =
          l.endedIf (shouldCommit = true) := by
        simp only [endedIf, IsNew, or_iff_left (not_not.mpr hknown)]
      apply wp_mono (hlookup l)
      · rintro typeId found ⟨hfound, htypeKnown⟩
        rw [hfound, hended]
        apply wp_mono (nextInternal_spec h hworking hbounded shouldCommit typeId entityId timestamp)
        · rintro - last ⟨u', hmoved, -, hin⟩
          exact ⟨u', hmoved.advanced, hin⟩
        · intro error last hlast hcan
          obtain ⟨bodies, u', -, hmoved⟩ := hlast (hcan.canOpen hknown htypeKnown)
          exact ⟨bodies, u', hmoved.advanced⟩
      · rintro error found ⟨hfound, -⟩ -
        rw [hfound]
        exact ⟨[], u, Advanced.refl h⟩
    · rw [if_neg hknown] at hfirst
      obtain ⟨registered, hadvanced, hstate, hptr, -⟩ := hfirst
      have hnotBody : first.state ≠ .messageBody := by
        rw [hstate]
        exact State.noConfusion
      have hended : l.endedIf (shouldCommit = true ∨ l.IsNew symbolName) = l.endedBody :=
        if_pos (Or.inr hknown)
      have hnone : first.endedIf (shouldCommit = true) = [] := by
        rw [endedIf, endedBody, if_neg hnotBody, ite_self]
      apply wp_mono (hlookup first)
      · rintro typeId found ⟨hfound, htypeKnown⟩
        rw [hfound, hended]
        apply wp_mono (nextInternal_spec hadvanced.refines (hadvanced.interruption.trans hworking)
          (fun hbody ↦ absurd hbody hnotBody) shouldCommit typeId entityId timestamp)
        · rintro - last ⟨u', hmoved, -, hin⟩
          rw [hnone] at hmoved
          have hboth := hadvanced.trans hmoved.advanced
          rw [List.append_nil] at hboth
          exact ⟨u', hboth, hin⟩
        · intro error last hlast hcan
          have htypeFirst := htype first hadvanced.typeIndex hadvanced.typeIdLocal2Remote htypeKnown
          have hroom := hcan.room hknown htypeFirst
          have hstart : first.nextStart shouldCommit = first.messageWriter.dataPtr + 1 := by
            rw [nextStart, hstate]
          have hopen : CanOpen shouldCommit first := by
            refine ⟨fun _ ↦ ?_, fun hbody ↦ absurd hbody hnotBody⟩
            rw [hstart, hptr, hadvanced.dataEnd]
            omega
          obtain ⟨bodies, u', -, hmoved⟩ := hlast hopen
          exact ⟨_, u', hadvanced.trans hmoved.advanced⟩
      · rintro error found ⟨hfound, -⟩ -
        rw [hfound]
        exact ⟨_, registered, hadvanced⟩
  · rintro error last ⟨hnew, hcannot⟩ hcan
    exact absurd (hcan.canRegister hnew) hcannot

theorem beginMessage_spec (h : Refines request l u) (hworking : l.interruption = .working)
    (hbounded : l.state = .messageBody → Bounded l) (userTypeId : ℕ) (symbolName : List UInt8)
    (timestamp : ℕ) (shouldCommit : Bool) :
    wp (beginMessage userTypeId symbolName timestamp shouldCommit)
      (fun _ l' ↦ ∃ u', Advanced request
        (l.endedIf (shouldCommit = true ∨ l.IsNew symbolName)) l l' u u' ∧ InBuffer l')
      (fun _ l' ↦ CanBegin symbolName shouldCommit (l.typeIdLocal2Remote userTypeId ≠ none) l →
        ∃ bodies u', Advanced request bodies l l' u u') l := by
  apply begin_spec (fun l ↦ l.typeIdLocal2Remote userTypeId ≠ none) _ _ h hworking hbounded
  · intro l
    apply wp_mono (getMessageDescriptorId_spec userTypeId l)
    · exact fun _ _ hfound ↦ hfound
    · exact fun _ _ hmissing ↦ ⟨hmissing.1, not_not.mpr hmissing.2⟩
  · intro l' _ hsame hknown
    rwa [hsame] at hknown

theorem nextOfType_spec (h : Refines request l u) (hworking : l.interruption = .working)
    (hbounded : l.state = .messageBody → Bounded l) (typeName symbolName : List UInt8)
    (timestamp : ℕ) :
    wp (nextOfType typeName symbolName timestamp)
      (fun _ l' ↦ ∃ u', Advanced request
        (l.endedIf (true = true ∨ l.IsNew symbolName)) l l' u u' ∧ InBuffer l')
      (fun _ l' ↦ CanBegin symbolName true (l.typeIndex typeName ≠ none) l →
        ∃ bodies u', Advanced request bodies l l' u u') l := by
  apply begin_spec (fun l ↦ l.typeIndex typeName ≠ none) _ _ h hworking hbounded
  · intro l
    apply wp_mono (getMessageDescriptorIdOfName_spec typeName l)
    · exact fun _ _ hfound ↦ hfound
    · exact fun _ _ hmissing ↦ ⟨hmissing.1, not_not.mpr hmissing.2⟩
  · intro l' hsame _ hknown
    rwa [hsame] at hknown

/-- `next` and `beginMessage` with an entity id. -/
theorem beginMessageOfEntity_spec (h : Refines request l u) (hworking : l.interruption = .working)
    (hbounded : l.state = .messageBody → Bounded l) (userTypeId entityId timestamp : ℕ)
    (shouldCommit : Bool) :
    wp (beginMessageOfEntity userTypeId entityId timestamp shouldCommit)
      (fun _ l' ↦ ∃ u', Advanced request (l.endedIf (shouldCommit = true)) l l' u u' ∧ InBuffer l')
      (fun _ l' ↦ (l.typeIdLocal2Remote userTypeId ≠ none → entityId < l.instruments.length →
          CanOpen shouldCommit l) →
        ∃ bodies u', Advanced request bodies l l' u u') l := by
  unfold beginMessageOfEntity
  rw [wp_bind]
  apply wp_mono (getMessageDescriptorId_spec userTypeId l)
  · rintro typeId found ⟨hfound, htypeKnown⟩
    rw [hfound, wp_bind, wp_get]
    by_cases hunknown : l.instruments.length ≤ entityId
    · rw [if_pos hunknown]
      exact fun _ ↦ ⟨[], u, Advanced.refl h⟩
    · rw [if_neg hunknown]
      apply wp_mono (nextInternal_spec h hworking hbounded shouldCommit typeId entityId timestamp)
      · rintro - last ⟨u', hmoved, -, hin⟩
        exact ⟨u', hmoved.advanced, hin⟩
      · intro error last hlast hcan
        obtain ⟨bodies, u', -, hmoved⟩ := hlast (hcan htypeKnown (not_le.mp hunknown))
        exact ⟨bodies, u', hmoved.advanced⟩
  · rintro error found ⟨hfound, -⟩ -
    rw [hfound]
    exact ⟨[], u, Advanced.refl h⟩

/-! ## All calls -/

namespace Call

/-- The message that a call ends, if it returns. -/
def committed : Call → TickLoaderImpl → List (List UInt8)
  | next _ _ _, l | nextOfEntity _ _ _, l | nextOfType _ _ _, l => l.endedBody
  | beginMessage _ symbolName _ commitPrevious, l =>
    l.endedIf (commitPrevious = true ∨ l.IsNew symbolName)
  | beginMessageOfEntity _ _ _ commitPrevious, l => l.endedIf (commitPrevious = true)
  | field _, _ | flush, _ => []
  | commitMessage, l | send, l => l.endedBody
  | getInstrumentId instr, l => l.endedIf (l.IsNew instr)

/-- A field is written while a message is open. -/
def InOrder (call : Call) (l : TickLoaderImpl) : Prop :=
  ∀ write, call = field write → l.state = .messageBody

/-- The condition under which the call, even if it throws, keeps the numbers of the instruments: what
it registers and what it opens has room, and a message that it ends is balanced. -/
def Recoverable : Call → TickLoaderImpl → Prop
  | next userTypeId symbolName _, l =>
    CanBegin symbolName true (l.typeIdLocal2Remote userTypeId ≠ none) l
  | nextOfType typeName symbolName _, l => CanBegin symbolName true (l.typeIndex typeName ≠ none) l
  | beginMessage userTypeId symbolName _ commitPrevious, l =>
    CanBegin symbolName commitPrevious (l.typeIdLocal2Remote userTypeId ≠ none) l
  | nextOfEntity userTypeId entityId _, l =>
    l.typeIdLocal2Remote userTypeId ≠ none → entityId < l.instruments.length → CanOpen true l
  | beginMessageOfEntity userTypeId entityId _ commitPrevious, l =>
    l.typeIdLocal2Remote userTypeId ≠ none → entityId < l.instruments.length →
      CanOpen commitPrevious l
  | field _, _ | flush, _ => True
  | commitMessage, l | send, l => Balanced l.messageWriter
  | getInstrumentId instr, l => instr ∉ l.instruments → CanRegister instr l

/-- What each call does to the upload. -/
theorem exec_spec (h : Refines request l u) (hworking : l.interruption = .working)
    (hbounded : l.state = .messageBody → Bounded l) (call : Call) (horder : call.InOrder l) :
    wp call.exec
      (fun _ l' ↦ ∃ u', Advanced request (call.committed l) l l' u u' ∧ (InBuffer l → InBuffer l'))
      (fun _ l' ↦ call.Recoverable l → ∃ bodies u', Advanced request bodies l l' u u') l := by
  have hcommit : wp Loader.commitMessage
      (fun _ l' ↦ ∃ u', Advanced request l.endedBody l l' u u' ∧ (InBuffer l → InBuffer l'))
      (fun _ l' ↦ Balanced l.messageWriter → ∃ bodies u', Advanced request bodies l l' u u') l := by
    apply wp_mono (commitMessage_spec h hbounded)
    · rintro - l' ⟨u', hmoved, hin⟩
      exact ⟨u', hmoved.advanced, hin⟩
    · intro error l' hkept hbalanced
      exact ⟨[], u, (hkept hbalanced).advanced⟩
  cases call with
  | next userTypeId symbolName timestamp =>
    apply wp_mono (beginMessage_spec h hworking hbounded userTypeId symbolName timestamp true)
    · rintro - l' ⟨u', hadvanced, hin⟩
      exact ⟨u', hadvanced, fun _ ↦ hin⟩
    · exact fun _ _ hkept ↦ hkept
  | nextOfEntity userTypeId entityId timestamp =>
    apply wp_mono (beginMessageOfEntity_spec h hworking hbounded userTypeId entityId timestamp true)
    · rintro - l' ⟨u', hadvanced, hin⟩
      exact ⟨u', hadvanced, fun _ ↦ hin⟩
    · exact fun _ _ hkept ↦ hkept
  | nextOfType typeName symbolName timestamp =>
    apply wp_mono (nextOfType_spec h hworking hbounded typeName symbolName timestamp)
    · rintro - l' ⟨u', hadvanced, hin⟩
      exact ⟨u', hadvanced, fun _ ↦ hin⟩
    · exact fun _ _ hkept ↦ hkept
  | beginMessage userTypeId symbolName timestamp commitPrevious =>
    apply wp_mono
      (beginMessage_spec h hworking hbounded userTypeId symbolName timestamp commitPrevious)
    · rintro - l' ⟨u', hadvanced, hin⟩
      exact ⟨u', hadvanced, fun _ ↦ hin⟩
    · exact fun _ _ hkept ↦ hkept
  | beginMessageOfEntity userTypeId entityId timestamp commitPrevious =>
    apply wp_mono
      (beginMessageOfEntity_spec h hworking hbounded userTypeId entityId timestamp commitPrevious)
    · rintro - l' ⟨u', hadvanced, hin⟩
      exact ⟨u', hadvanced, fun _ ↦ hin⟩
    · exact fun _ _ hkept ↦ hkept
  | field write =>
    have hstate := horder write rfl
    have hwritten := write.exec_written (h.message hstate) (hbounded hstate)
    apply wp_mono (onWriter_open h hstate hwritten)
    · rintro - l' ⟨hopen, hin⟩
      exact ⟨u, hopen.moved.advanced, hin⟩
    · exact fun _ _ hopen _ ↦ ⟨[], u, hopen.moved.advanced⟩
  | commitMessage => exact hcommit
  | send => exact hcommit
  | flush =>
    apply wp_mono (flush_spec h)
    · rintro - l' ⟨hmoved, hin⟩
      exact ⟨u, hmoved.advanced, hin⟩
    · exact fun _ _ hmoved _ ↦ ⟨[], u, hmoved.advanced⟩
  | getInstrumentId instr =>
    rw [exec, wp_bind]
    apply wp_mono (getInstrumentId_spec h hworking hbounded instr)
    · rintro entityId l' ⟨-, hl'⟩
      rw [wp_pure, committed, endedIf]
      by_cases hknown : instr ∈ l.instruments
      · have hold : ¬ l.IsNew instr := not_not.mpr hknown
        rw [if_pos hknown] at hl'
        rw [if_neg hold, hl']
        exact ⟨u, Advanced.refl h, id⟩
      · have hnew : l.IsNew instr := hknown
        rw [if_neg hknown] at hl'
        rw [if_pos hnew]
        obtain ⟨u', hadvanced, -, -, hin⟩ := hl'
        exact ⟨u', hadvanced, fun _ ↦ hin⟩
    · rintro error l' ⟨hnew, hcannot⟩ hcan
      exact absurd (hcan hnew) hcannot

end Call

end DxApi.Loader
