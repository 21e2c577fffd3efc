import DxApi.Loader.Calls

/-!
# The numbers of the instruments

A message names its instrument by a number, which is the position of the instrument's record on the
wire. A client may catch what a call throws and go on. `SafeRun` is the condition under which the
loader's own list of instruments then stays the list on the wire; without it, a name may be
registered whose record is never written.
-/

namespace DxApi.Loader

open Exec ByteMemory ByteOrder Writer Net TickLoaderImpl

variable {request : List UInt8} {l l' : TickLoaderImpl} {u u' : Upload}

/-! ## Runs with caught exceptions -/

/-- The loader after the calls, of which any may have thrown. -/
def runAll (calls : List Call) (l : TickLoaderImpl) : TickLoaderImpl :=
  calls.foldl (fun l call ↦ finalState call.exec l) l

/-- The `k`-th instrument of the loader is the `k`-th instrument record that was sent or is buffered
for sending after the request. -/
def Numbered (request : List UInt8) (l : TickLoaderImpl) : Prop :=
  ∃ sent, l.uploaded = request ++ sent ∧ (Receiver.start.readAll sent).instruments = l.instruments

/-- The receiver takes the entity id for the instrument. -/
def Denotes (request : List UInt8) (entityId : ℕ) (instr : List UInt8) (l : TickLoaderImpl) : Prop :=
  ∃ sent, l.uploaded = request ++ sent ∧
    (Receiver.start.readAll sent).instruments[entityId]? = some instr

/-- The condition on one call. -/
structure Call.Safe (call : Call) (l : TickLoaderImpl) : Prop where
  inOrder : call.InOrder l
  bounded : l.state = .messageBody → Bounded l
  recoverable : call.Recoverable l

/-- Every call is made in a state in which it is safe. -/
def SafeRun : List Call → TickLoaderImpl → Prop
  | [], _ => True
  | call :: calls, l => call.Safe l ∧ SafeRun calls (finalState call.exec l)

/-- The instruments of the loader are those of the upload that it has written. -/
structure Consistent (request : List UInt8) (l : TickLoaderImpl) : Prop where
  upload : ∃ u, Refines request l u ∧ u.symbols = l.instruments
  working : l.interruption = .working

theorem Opened.consistent (h : Opened l) : Consistent l.ioStream.handed l := by
  refine ⟨⟨Upload.empty, h.refines, ?_⟩, h.interruption⟩
  rw [h.instruments]
  rfl

theorem Consistent.numbered (h : Consistent request l) : Numbered request l := by
  obtain ⟨u, hrefines, hsymbols⟩ := h.upload
  refine ⟨u.encode, hrefines.uploaded, ?_⟩
  rw [Receiver.readAll_upload, hsymbols]

theorem Advanced.consistent {bodies : List (List UInt8)} (h : Advanced request bodies l l' u u')
    (hsymbols : u.symbols = l.instruments) (hworking : l.interruption = .working) :
    Consistent request l' :=
  ⟨⟨u', h.refines, h.numbered hsymbols⟩, h.interruption.trans hworking⟩

/-- One safe call, whether it returns or throws. -/
theorem Consistent.step (h : Consistent request l) {call : Call} (hsafe : call.Safe l) :
    Consistent request (finalState call.exec l) ∧
      l.instruments <+: (finalState call.exec l).instruments := by
  obtain ⟨u, hrefines, hsymbols⟩ := h.upload
  have hspec := Call.exec_spec hrefines h.working hsafe.bounded call hsafe.inOrder
  have hboth : wp call.exec
      (fun _ l' ↦ Consistent request l' ∧ l.instruments <+: l'.instruments)
      (fun _ l' ↦ Consistent request l' ∧ l.instruments <+: l'.instruments) l := by
    apply wp_mono hspec
    · rintro - l' ⟨u', hadvanced, -⟩
      exact ⟨hadvanced.consistent hsymbols h.working, hadvanced.instruments⟩
    · intro error l' hkept
      obtain ⟨bodies, u', hadvanced⟩ := hkept hsafe.recoverable
      exact ⟨hadvanced.consistent hsymbols h.working, hadvanced.instruments⟩
  have hfinal := finalState_of_wp hboth
  exact hfinal

/-- The calls one after the other. -/
theorem Consistent.run (h : Consistent request l) {calls : List Call} (hrun : SafeRun calls l) :
    Consistent request (runAll calls l) ∧ l.instruments <+: (runAll calls l).instruments := by
  induction calls generalizing l with
  | nil => exact ⟨h, List.prefix_rfl⟩
  | cons call calls ih =>
    obtain ⟨hsafe, hrest⟩ := hrun
    obtain ⟨hnext, hprefix⟩ := h.step hsafe
    obtain ⟨hlast, hprefix'⟩ := ih hnext hrest
    exact ⟨hlast, hprefix.trans hprefix'⟩

theorem finalState_getInstrumentId {instr : List UInt8} {entityId : ℕ}
    (hcall : getInstrumentId instr l = .ok entityId l') :
    finalState (Call.getInstrumentId instr).exec l = l' := by
  rw [finalState, Call.exec, run_bind_of_ok hcall, run_pure]

/-- The number that a client is given is the position of its instrument in the list. -/
theorem Consistent.registered (h : Consistent request l) {instr : List UInt8} {entityId : ℕ}
    (hsafe : (Call.getInstrumentId instr).Safe l) (hcall : getInstrumentId instr l = .ok entityId l') :
    Consistent request l' ∧ l'.instruments[entityId]? = some instr := by
  obtain ⟨u, hrefines, hsymbols⟩ := h.upload
  have hspec := getInstrumentId_spec hrefines h.working hsafe.bounded instr
  rw [wp_ok hcall] at hspec
  have hnext := (h.step hsafe).1
  rw [finalState_getInstrumentId hcall] at hnext
  exact ⟨hnext, hspec.1⟩

/-! ## The main result -/

/-- In every run of safe calls the instruments are numbered as on the wire, and a number that a call
was given for an instrument denotes it from then on. -/
theorem instruments_numbered (hopened : Opened l) {calls : List Call} (hrun : SafeRun calls l) :
    Numbered l.ioStream.handed (runAll calls l) ∧
      ∀ (instr : List UInt8) (entityId : ℕ) (l' : TickLoaderImpl) (later : List Call),
        (Call.getInstrumentId instr).Safe (runAll calls l) →
        getInstrumentId instr (runAll calls l) = .ok entityId l' → SafeRun later l' →
        Denotes l.ioStream.handed entityId instr (runAll later l') := by
  obtain ⟨hreached, -⟩ := hopened.consistent.run hrun
  refine ⟨hreached.numbered, ?_⟩
  intro instr entityId l' later hsafe hcall hlater
  obtain ⟨hregistered, hposition⟩ := hreached.registered hsafe hcall
  obtain ⟨hlast, hprefix⟩ := hregistered.run hlater
  obtain ⟨sent, huploaded, hinstruments⟩ := hlast.numbered
  refine ⟨sent, huploaded, ?_⟩
  obtain ⟨hlt, hregisteredAt⟩ := List.getElem?_eq_some_iff.mp hposition
  rw [hinstruments, ← hregisteredAt]
  exact List.prefix_iff_getElem?.mp hprefix entityId hlt

/-- A loader that has just been opened over a socket that accepts everything; it knows one message
type, which has the number 0. -/
def openedLoader (minChunkSize : ℤ) : TickLoaderImpl where
  messageWriter := emptyWriter (maxMessageSize + 56)
  ioStream := {
    send := fun _ ↦ .accepts maxMessageSize
    sends := 0
    outputClosed := false
    nBytesWritten := 0
    writes := [] }
  connected := true
  state := .notInMessageBlock
  interruption := .working
  writePtr := 0
  messageStart := 0
  minChunkSize := minChunkSize
  useEntityId32 := false
  nMsgWritten := 0
  nMsgCancelled := 0
  instruments := []
  typeIndex := fun _ ↦ some 0
  typeIdLocal2Remote := fun typeId ↦ if typeId = 0 then some 0 else none

theorem opened_openedLoader (minChunkSize : ℤ) : Opened (openedLoader minChunkSize) := by
  refine ⟨rfl, rfl, rfl, rfl, rfl, rfl, rfl, ?_⟩
  change ((maxMessageSize + 56 : ℕ) : ℤ) = 0 + (maxMessageSize + 56 : ℕ)
  rw [zero_add]

/-- Behind an open message without containers that is not to be flushed, a short name can be registered. -/
theorem TickLoaderImpl.CanRegister.of_plain {name : List UInt8} (hdepth : l.messageWriter.depth = 0)
    (hextra : l.messageWriter.containerContentsExtraSize 0 = 0) (hflushes : ¬ Flushes l.endPosition l)
    (hname : name.length < 0xFFFF)
    (hroom : l.blockPosition + (3 + name.length : ℕ) ≤ l.messageWriter.dataEnd) : CanRegister name l :=
  ⟨fun _ ↦ ⟨⟨hdepth, .inl hextra⟩, fun h ↦ absurd h hflushes⟩, hname, hroom⟩

/-- A message with a field, a new name with a type that is not known, which throws, and a message of the
instrument that it has registered. -/
def caughtUnknownType : List Call :=
  [.next 0 [65] 0, .field (.word [7] 1), .next 1 [66] 1, .nextOfEntity 0 1 2]

theorem safeRun_caughtUnknownType : SafeRun caughtUnknownType (openedLoader 100) := by
  refine ⟨⟨fun _ hcall ↦ Call.noConfusion hcall, fun hbody ↦ absurd hbody (by decide), ?_⟩,
    ⟨fun _ _ ↦ by decide +kernel, fun _ ↦ ?_, trivial⟩,
    ⟨fun _ hcall ↦ Call.noConfusion hcall, fun _ ↦ ?_, ?_⟩,
    ⟨fun _ hcall ↦ Call.noConfusion hcall, fun hbody ↦ absurd hbody (by decide +kernel), ?_⟩, trivial⟩
  · exact ⟨fun hmem ↦ absurd hmem (by decide), fun _ ↦ ⟨fun hbody ↦ absurd hbody (by decide), by decide, by decide⟩,
      fun _ _ ↦ by decide⟩
  · unfold Bounded
    decide +kernel
  · unfold Bounded
    decide +kernel
  · refine ⟨fun hmem ↦ absurd hmem (by decide +kernel), fun _ ↦ ?_, fun _ hknown ↦ absurd (by decide +kernel) hknown⟩
    exact .of_plain (by decide +kernel) (by decide +kernel) (by decide +kernel) (by decide) (by decide +kernel)
  · refine fun _ _ ↦ ⟨fun _ ↦ ?_, fun hbody ↦ absurd hbody (by decide +kernel)⟩
    decide +kernel

theorem instruments_numbered_caught :
    let reached := runAll caughtUnknownType (openedLoader 100)
    let registered := finalState (getInstrumentId [67]) reached
    Numbered [] reached ∧ reached.instruments = [[65], [66]] ∧
      Denotes [] 2 [67] (runAll [.flush, .nextOfEntity 0 2 3] registered) := by
  intro reached registered
  obtain ⟨hnumbered, hdenotes⟩ := instruments_numbered (opened_openedLoader 100) safeRun_caughtUnknownType
  have hcall : getInstrumentId [67] reached = .ok 2 registered := eq_ok_of_valueOf (by decide +kernel)
  refine ⟨hnumbered, by decide +kernel, hdenotes [67] 2 registered _ ⟨?_, ?_, ?_⟩ hcall ?_⟩
  · exact fun _ hcall ↦ Call.noConfusion hcall
  · unfold Bounded
    exact fun _ ↦ by decide +kernel
  · exact fun _ ↦ .of_plain (by decide +kernel) (by decide +kernel) (by decide +kernel) (by decide) (by decide +kernel)
  · refine ⟨⟨?_, ?_, trivial⟩, ⟨?_, ?_, ?_⟩, trivial⟩
    · exact fun _ hcall ↦ Call.noConfusion hcall
    · exact fun hbody ↦ absurd hbody (by decide +kernel)
    · exact fun _ hcall ↦ Call.noConfusion hcall
    · exact fun hbody ↦ absurd hbody (by decide +kernel)
    · refine fun _ _ ↦ ⟨fun _ ↦ ?_, fun hbody ↦ absurd hbody (by decide +kernel)⟩
      decide +kernel

/-- A message with an array that is still open, and then a new instrument. -/
def unfinishedArray : List Call :=
  [.next 0 [65] 0, .field (.arrayStart 0), .getInstrumentId [66]]

/-- The open array keeps the message from being ended, so that the new instrument is registered
without a record. -/
theorem unfinished_array_breaks_numbering :
    ¬ ∀ (l : TickLoaderImpl) (calls : List Call), Opened l →
      Numbered l.ioStream.handed (runAll calls l) := by
  intro hall
  obtain ⟨sent, huploaded, hinstruments⟩ :=
    hall (openedLoader 100) unfinishedArray (opened_openedLoader 100)
  have hdifferent : (Receiver.start.readAll
      (runAll unfinishedArray (openedLoader 100)).uploaded).instruments ≠
        (runAll unfinishedArray (openedLoader 100)).instruments := by
    decide +kernel
  rw [huploaded] at hdifferent
  exact hdifferent hinstruments

end DxApi.Loader
