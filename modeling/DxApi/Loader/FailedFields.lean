import DxApi.Loader.Numbering
import DxApi.Writer.FailedWrites

/-!
# Field writes that throw, in an open loader

A client that catches the exception of a field write goes on with the message. The message is the one
it means only if the field write left the writer as it was, which is so exactly when the argument was
refused before the first store: after any other failure the pointer has moved, over bytes that are no
whole field, or out of the buffer.
-/

namespace DxApi.Loader

open Exec ByteMemory Writer TickLoaderImpl

variable {l l' : TickLoaderImpl}

/-- A field is written with the writer that `next` returned. -/
def writeField (write : LeafWrite) : LoaderM Unit := onWriter write.exec

/-- `bufferStart <= dataPtr <= dataEnd`. -/
def PointerInBuffer (l : TickLoaderImpl) : Prop :=
  l.messageWriter.bufferStart ≤ l.messageWriter.dataPtr ∧ l.InBuffer

/-- The pointer is in the buffer, and where it was. -/
def LeftAsItWas (l l' : TickLoaderImpl) : Prop :=
  PointerInBuffer l' ∧ l'.messageWriter.dataPtr = l.messageWriter.dataPtr

/-- The call throws. -/
def Throws (write : LeafWrite) (l : TickLoaderImpl) : Prop := returns (writeField write) l = false

instance (write : LeafWrite) (l : TickLoaderImpl) : Decidable (Throws write l) :=
  inferInstanceAs (Decidable (returns (writeField write) l = false))

/-! ## One call -/

theorem writeField_refused {write : LeafWrite} (h : write.Refused) (l : TickLoaderImpl) :
    finalState (writeField write) l = l := by
  have hunchanged : wp (writeField write) (fun _ l' ↦ l' = l) (fun _ l' ↦ l' = l) l := by
    rw [writeField, onWriter, wp_zoom]
    apply wp_mono ((write.exec_refuses).unchanged h l.messageWriter)
    · exact fun _ _ hfalse ↦ hfalse.elim
    · intro _ w' hw'
      rw [hw']
  exact finalState_of_wp hunchanged

/-- A call that throws has spoiled the writer if it did not refuse its argument. -/
theorem writeField_spoiled {write : LeafWrite} (h : ¬ write.Refused) (hthrows : Throws write l) :
    Grown l.messageWriter (finalState (writeField write) l).messageWriter ∧
      Spoiled l.messageWriter (finalState (writeField write) l).messageWriter := by
  have hspoils := (write.exec_refuses).spoils h l.messageWriter
  unfold Throws returns at hthrows
  unfold finalState
  unfold wp at hspoils
  simp only [writeField, onWriter, zoom] at hthrows ⊢
  cases hrun : write.exec l.messageWriter with
  | ok value w' => simp [hrun] at hthrows
  | error error w' => simpa [hrun] using hspoils

/-- A call that throws leaves the writer as it was exactly if it refused its argument and the pointer
was in the buffer. -/
theorem leftAsItWas_iff {write : LeafWrite} (hthrows : Throws write l) :
    LeftAsItWas l (finalState (writeField write) l) ↔ write.Refused ∧ PointerInBuffer l := by
  constructor
  · intro hleft
    have hptr := hleft.2
    by_cases hrefused : write.Refused
    · rw [writeField_refused hrefused] at hleft
      exact ⟨hrefused, hleft.1⟩
    · have hgrown := (writeField_spoiled hrefused hthrows).1
      have hend : (finalState (writeField write) l).messageWriter.dataPtr ≤
          (finalState (writeField write) l).messageWriter.dataEnd := hleft.1.2
      cases (writeField_spoiled hrefused hthrows).2 with
      | inl hmoved => exact absurd hptr hmoved.ne'
      | inr hbehind =>
        rw [hgrown.dataEnd] at hend
        exact absurd hbehind (not_lt.mpr hend)
  · intro hkept
    rw [writeField_refused hkept.1]
    exact ⟨hkept.2, rfl⟩

/-! ## Runs -/

/-- Fields are written one after the other; what a call throws is caught. -/
def writeFields (writes : List LeafWrite) (l : TickLoaderImpl) : TickLoaderImpl :=
  writes.foldl (fun l write ↦ finalState (writeField write) l) l

/-- The calls that return. -/
def succeeded : List LeafWrite → TickLoaderImpl → List LeafWrite
  | [], _ => []
  | write :: writes, l =>
    let rest := succeeded writes (finalState (writeField write) l)
    if Throws write l then rest else write :: rest

/-- Every call that throws has refused its argument. -/
def OnlyRefused : List LeafWrite → TickLoaderImpl → Prop
  | [], _ => True
  | write :: writes, l =>
    (Throws write l → write.Refused) ∧ OnlyRefused writes (finalState (writeField write) l)

/-- The calls that throw might as well not have been made. -/
theorem writeFields_succeeded {writes : List LeafWrite} (h : OnlyRefused writes l) :
    writeFields writes l = writeFields (succeeded writes l) l := by
  induction writes generalizing l with
  | nil => rfl
  | cons write writes ih =>
    have hrest := ih h.2
    by_cases hthrows : Throws write l
    · have hunchanged := writeField_refused (h.1 hthrows) l
      rw [hunchanged] at hrest
      calc writeFields (write :: writes) l
          = writeFields writes (finalState (writeField write) l) := rfl
        _ = writeFields writes l := by rw [hunchanged]
        _ = writeFields (succeeded writes l) l := hrest
        _ = writeFields (succeeded (write :: writes) l) l := by
          rw [succeeded, if_pos hthrows, hunchanged]
    · calc writeFields (write :: writes) l
          = writeFields writes (finalState (writeField write) l) := rfl
        _ = writeFields (succeeded writes (finalState (writeField write) l))
              (finalState (writeField write) l) := hrest
        _ = writeFields (succeeded (write :: writes) l) l := by
          rw [succeeded, if_neg hthrows]
          rfl

/-- A call that returns keeps the pointer in the buffer. -/
theorem pointerInBuffer_step {write : LeafWrite} (h : PointerInBuffer l)
    (hrefused : Throws write l → write.Refused) :
    PointerInBuffer (finalState (writeField write) l) := by
  by_cases hthrows : Throws write l
  · rw [writeField_refused (hrefused hthrows)]
    exact h
  · have hstores := write.exec_stores l.messageWriter
    unfold Throws returns at hthrows
    unfold finalState
    unfold wp at hstores
    simp only [writeField, onWriter, zoom] at hthrows ⊢
    cases hrun : write.exec l.messageWriter with
    | error error w' => simp [hrun] at hthrows
    | ok value w' =>
      rw [hrun] at hstores
      have hstart := h.1
      have hforward := hstores.1.forward
      refine ⟨?_, hstores.2 h.2⟩
      change w'.bufferStart ≤ w'.dataPtr
      rw [hstores.1.bufferStart]
      exact hstart.trans hforward

theorem pointerInBuffer_run {writes : List LeafWrite} (h : PointerInBuffer l)
    (hrefused : OnlyRefused writes l) : PointerInBuffer (writeFields writes l) := by
  induction writes generalizing l with
  | nil => exact h
  | cons write writes ih => exact ih (pointerInBuffer_step h hrefused.1) hrefused.2

/-- In any state, a field write that throws leaves the writer as it was exactly if it refused its
argument before the first store and the pointer was in the buffer. When that is so of all the calls
that throw, the fields written are those of the calls that return, and a commit finds nothing else. -/
theorem failed_fields_left (l : TickLoaderImpl) :
    (∀ write, Throws write l →
      (LeftAsItWas l (finalState (writeField write) l) ↔ write.Refused ∧ PointerInBuffer l)) ∧
    ∀ writes, OnlyRefused writes l →
      writeFields writes l = writeFields (succeeded writes l) l ∧
        finalState commitMessage (writeFields writes l) =
          finalState commitMessage (writeFields (succeeded writes l) l) ∧
        (PointerInBuffer l → PointerInBuffer (writeFields writes l)) := by
  constructor
  · exact fun write hthrows ↦ leftAsItWas_iff hthrows
  · intro writes hrefused
    have hsame := writeFields_succeeded hrefused
    exact ⟨hsame, congrArg (finalState commitMessage) hsame, fun h ↦ pointerInBuffer_run h hrefused⟩

/-- A number that is too big is refused, on its own and after a field. -/
theorem failed_fields_left_number :
    LeftAsItWas (openedLoader 100) (finalState (writeField (.pUInt30 (2 ^ 30))) (openedLoader 100)) ∧
      PointerInBuffer (writeFields [.fixed (.byte 7), .pUInt30 (2 ^ 30)] (openedLoader 100)) := by
  have hbuffer : PointerInBuffer (openedLoader 100) := by
    have hroom : (0 : ℤ) ≤ 0 + (maxMessageSize + 56 : ℕ) := by decide
    exact ⟨le_rfl, hroom⟩
  have hnumber : (LeafWrite.pUInt30 (2 ^ 30)).Refused := ⟨by decide, by decide⟩
  have hthrows : Throws (.pUInt30 (2 ^ 30)) (openedLoader 100) := by decide +kernel
  have hbyte : ¬ Throws (.fixed (.byte 7)) (openedLoader 100) := by decide +kernel
  constructor
  · exact ((failed_fields_left (openedLoader 100)).1 _ hthrows).mpr ⟨hnumber, hbuffer⟩
  · exact ((failed_fields_left (openedLoader 100)).2 [.fixed (.byte 7), .pUInt30 (2 ^ 30)]
      ⟨fun hfails ↦ absurd hfails hbyte, fun _ ↦ hnumber, trivial⟩).2.2 hbuffer

/-- A wide string that is no UTF-16 leaves the two bytes of its length in the message. -/
theorem bad_surrogate_leaves_length :
    ¬ ∀ (l : TickLoaderImpl) (calls : List Call) (write : LeafWrite), Opened l →
      Throws write (runAll calls l) →
      LeftAsItWas (runAll calls l) (finalState (writeField write) (runAll calls l)) := by
  intro hall
  have hthrows : Throws (.wideUTF8 [0xDC00]) (runAll [.next 0 [65] 0] (openedLoader 100)) := by
    decide +kernel
  have hmoved : (finalState (writeField (.wideUTF8 [0xDC00]))
      (runAll [.next 0 [65] 0] (openedLoader 100))).messageWriter.dataPtr ≠
        (runAll [.next 0 [65] 0] (openedLoader 100)).messageWriter.dataPtr := by
    decide +kernel
  exact hmoved (hall (openedLoader 100) [.next 0 [65] 0] (.wideUTF8 [0xDC00])
    (opened_openedLoader 100) hthrows).2

end DxApi.Loader
