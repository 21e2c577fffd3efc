import DxApi.Reader.Dechunk

/-!
# Messages and containers

A message is framed by `setMessageSize`, and every open container narrows the content limit to its
own content: what it holds back of the enclosing content is pushed on the stack `eOfs`.
`nextMessage` is meant to undo all of this and to skip what the decoder left unread. It adds up the
stack one slot too high, so that it lands right after the message exactly when no container is open
or the slot above the stack happens to hold what the lowest slot holds.
-/

namespace DxApi.Reader

open Exec ByteMemory

/-! ## The source -/

/-- `resetMessageSize`: no content limit. -/
def resetMessageSize : ReaderM Unit :=
  modify fun r ↦ { r with contentEnd := noContentLimit, dataEnd := r.dataEnd0 }

/-- `setMessageSize`: the content is the next `size` bytes. -/
def setMessageSize (size : ℕ) : ReaderM Unit :=
  modify fun r ↦
    let e : ℤ := r.dataPtr + size
    { r with contentEnd := e, dataEnd0 := r.dataEnd, dataEnd := min r.dataEnd e, depth := 0 }

/-- The word at index `i` of `eOfs`. The array has 16 elements, `containerIsArray` follows it. -/
def eOfsAt (r : DataReader) (i : ℕ) : ℕ :=
  if i < readerMaxNestedObjects then r.eOfs i
  else (List.range 8).foldr (fun k word ↦ (r.containerIsArray k).toNat + 256 * word) 0

/-- The loop of `skipUnreadMessageBody`. -/
def unwindStack : ℕ → ReaderM Unit
  | 0 => return ()
  | depth + 1 => do
    modify fun r ↦ { r with contentEnd := r.contentEnd + eOfsAt r (depth + 1), depth := depth }
    unwindStack depth

/-- `skipUnreadMessageBody`. -/
def skipUnreadMessageBody (cls : ReaderClass) : ReaderM Unit := do
  let r ← get
  unwindStack r.depth
  let r ← get
  let n := r.contentEnd - r.dataPtr
  resetMessageSize
  skip cls n

/-- `nextMessage`: skip what is left of the message and drop its content limit. -/
def nextMessage (cls : ReaderClass) : ReaderM Unit := do
  let r ← get
  if r.contentEnd - r.dataPtr ≠ 0 ∨ r.depth ≠ 0 then
    skipUnreadMessageBody cls
  resetMessageSize

/-- `getPackedUInt22`: one byte, or two bits that give the number of extra bytes. -/
def getPackedUInt22 (cls : ReaderClass) : ReaderM ℕ := do
  let p ← bytes cls 1
  let r ← get
  let header := (r.mem p).toNat
  if header < 0x80 then
    return header
  else
    let numBytes := header / 0x40 - 1
    let p ← bytes cls numBytes
    let r ← get
    let x := (ByteMemory.bytes r.mem p numBytes).foldr (fun byte x ↦ byte.toNat + 256 * x) 0
    return header % 0x40 + x * 0x40

/-- `openContainer`: false for a null container, which has no content. -/
def openContainer (cls : ReaderClass) (isArray : Bool) : ReaderM Bool := do
  let size ← getPackedUInt22 cls
  let r ← get
  let remaining := (r.contentEnd - r.dataPtr).toNat
  if size = 0 then
    return false
  else if readerMaxNestedObjects ≤ r.depth then
    throw (.depthOverflow isArray)
  else
    let size := if size ≤ remaining then size else remaining
    let e : ℤ := r.contentEnd - (remaining - size : ℕ)
    set { r with
      depth := r.depth + 1
      containerIsArray := Function.update r.containerIsArray r.depth isArray
      eOfs := Function.update r.eOfs r.depth (remaining - size)
      contentEnd := e
      dataEnd := min e r.dataEnd0 }
    return true

/-- `closeContainer`: the rest of its content is skipped. -/
def closeContainer (cls : ReaderClass) (isArray : Bool) : ReaderM Unit := do
  let r ← get
  match r.depth with
  | 0 => throw (.depthUnderflow isArray)
  | depth + 1 =>
    set { r with depth := depth }
    if r.containerIsArray depth ≠ isArray then
      throw (.wrongType isArray)
    else
      skip cls (r.contentEnd - r.dataPtr)
      modify fun r ↦
        let e : ℤ := r.contentEnd + r.eOfs depth
        { r with contentEnd := e, dataEnd := min e r.dataEnd0 }

/-- `skipContainer`. -/
def skipContainer (cls : ReaderClass) : ReaderM Unit := do
  let size ← getPackedUInt22 cls
  let r ← get
  let remaining := (r.contentEnd - r.dataPtr).toNat
  skip cls (if size ≤ remaining then size else remaining : ℕ)

/-- `endOfContent`. -/
def endOfContent : ReaderM Bool := do
  let r ← get
  return r.dataPtr = r.contentEnd

/-- `readArrayStart`: the number of items, none for null. -/
def readArrayStart (cls : ReaderClass) : ReaderM (Option ℕ) := do
  if ← endOfContent then return none
  if ← openContainer cls true then
    return some (← getPackedUInt22 cls)
  else
    return none

/-- `readObjectStart`: the index of the type, none for null. -/
def readObjectStart (cls : ReaderClass) : ReaderM (Option UInt8) := do
  if ← endOfContent then return none
  if ← openContainer cls false then
    let p ← bytes cls 1
    let r ← get
    return some (r.mem p)
  else
    return none

/-- `skipArray` and `skipObject`. -/
def skipNested (cls : ReaderClass) : ReaderM Unit := do
  if ← endOfContent then return ()
  skipContainer cls

/-- A call of a decoder inside a message. Fields are read and skipped by the calls of `ReadCall`. -/
inductive MessageCall
  | read (call : ReadCall)
  | endOfContent
  | getPackedUInt22
  | readArrayStart
  | readObjectStart
  | readArrayEnd
  | readObjectEnd
  | skipNested

def MessageCall.run (cls : ReaderClass) : MessageCall → ReaderM Unit
  | .read call => do let _ ← call.run cls
  | .endOfContent => do let _ ← Reader.endOfContent
  | .getPackedUInt22 => do let _ ← Reader.getPackedUInt22 cls
  | .readArrayStart => do let _ ← Reader.readArrayStart cls
  | .readObjectStart => do let _ ← Reader.readObjectStart cls
  | .readArrayEnd => closeContainer cls true
  | .readObjectEnd => closeContainer cls false
  | .skipNested => Reader.skipNested cls

def runCalls (cls : ReaderClass) : List MessageCall → ReaderM Unit
  | [] => return ()
  | call :: calls => do
    call.run cls
    runCalls cls calls

/-! ## The invariant inside a message -/

/-- The bytes of content that the lowest `depth` slots of the stack hold back. -/
def heldBack (eOfs : ℕ → ℕ) : ℕ → ℕ
  | 0 => 0
  | depth + 1 => heldBack eOfs depth + eOfs depth

theorem heldBack_update (eOfs : ℕ → ℕ) {depth i : ℕ} (value : ℕ) (h : depth ≤ i) :
    heldBack (Function.update eOfs i value) depth = heldBack eOfs depth := by
  induction depth with
  | zero => rfl
  | succ depth ih =>
    have hne : depth ≠ i := by omega
    rw [heldBack, heldBack, ih (by omega), Function.update_of_ne hne]

/-- Inside a message of `n` bytes that starts where `body` does, `consumed` bytes were read and
`left` bytes are left of the innermost container. -/
structure InMessage (cls : ReaderClass) (r : DataReader) (body : List UInt8) (n consumed left : ℕ) :
    Prop where
  isMsg : cls.isMsg
  ready : Ready cls r r.dataPtr (body.drop consumed) left
  total : consumed + left + heldBack r.eOfs r.depth = n
  depth_le : r.depth ≤ readerMaxNestedObjects
  hasRoom : 0x400 ≤ r.bufferEnd - r.bufferStart
  limit : r.bufferEnd + n ≤ noContentLimit

/-- The same at some place in the message. -/
def InsideMessage (cls : ReaderClass) (body : List UInt8) (n : ℕ) (r : DataReader) : Prop :=
  ∃ consumed left, InMessage cls r body n consumed left

variable {cls : ReaderClass} {r : DataReader} {body : List UInt8} {n consumed left : ℕ}

theorem InMessage.hasBuffer (h : InMessage cls r body n consumed left) : HasBuffer r := by
  have hroom := h.hasRoom
  unfold HasBuffer
  omega

theorem InMessage.contentEnd_eq (h : InMessage cls r body n consumed left) :
    r.contentEnd = r.dataPtr + left :=
  (h.ready.contentEnd_eq h.isMsg).1

/-- A call that takes `count` bytes of the content and moves nothing but the buffer. -/
theorem InMessage.take {count : ℕ} {r' : DataReader} (h : InMessage cls r body n consumed left)
    (hmoved : Moved r r')
    (hready : Ready cls r' r'.dataPtr ((body.drop consumed).drop count) (left - count))
    (hle : count ≤ left) : InMessage cls r' body n (consumed + count) (left - count) := by
  obtain ⟨hmsg, -, htotal, hdepth, hroom, hlimit⟩ := h
  have hcast : (left : ℤ) - count = (left - count : ℕ) := by omega
  rw [List.drop_drop, hcast] at hready
  obtain ⟨_, _, _, _, _, _, _, _, rfl⟩ := hmoved
  refine ⟨hmsg, hready, ?_, hdepth, hroom, hlimit⟩
  simp only
  omega

theorem InMessage.not_exceeds_le (h : InMessage cls r body n consumed left) {size : ℕ} {rest : List UInt8}
    (hnot : ¬ Exceeds cls rest left size) : size ≤ left := by
  by_contra hlt
  exact hnot (.inr ⟨h.isMsg, by omega⟩)

theorem readCall_inside (call : ReadCall) (h : InsideMessage cls body n r) :
    wp (call.run cls) (fun _ r' ↦ InsideMessage cls body n r') (fun _ _ ↦ True) r := by
  obtain ⟨consumed, left, hin⟩ := h
  refine wp_mono (call.run_spec hin.ready hin.hasBuffer) ?_ (fun _ _ _ ↦ trivial)
  rintro _ r' ⟨hmoved, hready, -, hexceeds⟩
  have hsize := hin.not_exceeds_le hexceeds
  have hconsumed : call.consumed ≤ call.size := by cases call <;> simp [ReadCall.consumed, ReadCall.size]
  exact ⟨_, _, hin.take hmoved hready (by omega)⟩

theorem bytes_inside (count : ℕ) (h : InsideMessage cls body n r) :
    wp (bytes cls count) (fun _ r' ↦ InsideMessage cls body n r') (fun _ _ ↦ True) r := by
  obtain ⟨consumed, left, hin⟩ := h
  refine wp_mono (bytes_spec hin.ready hin.hasBuffer) ?_ (fun _ _ _ ↦ trivial)
  rintro _ r' ⟨hmoved, hready, -, hexceeds⟩
  exact ⟨_, _, hin.take hmoved hready (hin.not_exceeds_le hexceeds)⟩

theorem getPackedUInt22_inside (h : InsideMessage cls body n r) :
    wp (getPackedUInt22 cls) (fun _ r' ↦ InsideMessage cls body n r') (fun _ _ ↦ True) r := by
  simp only [getPackedUInt22, wp_bind, wp_get, wp_ite, wp_pure]
  refine wp_mono (bytes_inside 1 h) ?_ (fun _ _ _ ↦ trivial)
  intro p r₁ h₁
  refine ⟨fun _ ↦ h₁, fun _ ↦ ?_⟩
  exact bytes_inside _ h₁

theorem Ready.narrow {p : ℤ} {rest : List UInt8} {left narrowed : ℤ} (h : Ready cls r p rest left)
    (hmsg : cls.isMsg) (hnarrowed : 0 ≤ narrowed) (contentEnd : ℤ) (hend : contentEnd = p + narrowed)
    (depth : ℕ) (eOfs : ℕ → ℕ) (containerIsArray : ℕ → Bool) :
    Ready cls { r with depth, eOfs, containerIsArray, contentEnd, dataEnd := min contentEnd r.dataEnd0 }
      p rest narrowed := by
  obtain ⟨-, -, hend0⟩ := h.contentEnd_eq hmsg
  refine ⟨h.at_rest.congr rfl rfl rfl rfl rfl rfl, ?_, fun _ ↦ ⟨hend, hnarrowed, hend0⟩⟩
  rw [if_pos hmsg]
  simp only [hend0]
  rfl

theorem hasRoom_skip (hroom : 0x400 ≤ r.bufferEnd - r.bufferStart) (size : ℤ) : HasRoom cls true size r := by
  have hle : contiguous cls true size ≤ 0x400 := by
    simp only [contiguous, headerRequest, if_true]
    split <;> omega
  exact hle.trans hroom

/-- The part of `openContainer` behind the length. -/
def openContainerOf (isArray : Bool) (size : ℕ) : ReaderM Bool := do
  let r ← get
  let remaining := (r.contentEnd - r.dataPtr).toNat
  if size = 0 then
    return false
  else if readerMaxNestedObjects ≤ r.depth then
    throw (.depthOverflow isArray)
  else
    let size := if size ≤ remaining then size else remaining
    let e : ℤ := r.contentEnd - (remaining - size : ℕ)
    set { r with
      depth := r.depth + 1
      containerIsArray := Function.update r.containerIsArray r.depth isArray
      eOfs := Function.update r.eOfs r.depth (remaining - size)
      contentEnd := e
      dataEnd := min e r.dataEnd0 }
    return true

theorem openContainer_eq (isArray : Bool) :
    openContainer cls isArray = (getPackedUInt22 cls >>= openContainerOf isArray) := rfl

/-- `r'` is `r` with one more container, which leaves `held` bytes of the enclosing content. -/
structure Opened (isArray : Bool) (held : ℕ) (r r' : DataReader) : Prop where
  depth_eq : r'.depth = r.depth + 1
  eOfs_eq : r'.eOfs = Function.update r.eOfs r.depth held
  kinds_eq : r'.containerIsArray = Function.update r.containerIsArray r.depth isArray

/-- A container is opened: what it leaves of the enclosing content is remembered. -/
theorem InMessage.openContainerOf {size : ℕ} (isArray : Bool) (h : InMessage cls r body n consumed left) (hsize : size ≠ 0)
    (hdepth : r.depth < readerMaxNestedObjects) :
    wp (openContainerOf isArray size)
      (fun found r' ↦ found = true ∧ InMessage cls r' body n consumed (min size left) ∧
        Opened isArray (left - min size left) r r')
      (fun _ _ ↦ False) r := by
  have hend := h.contentEnd_eq
  have hremaining : (r.contentEnd - r.dataPtr).toNat = left := by omega
  have htotal := h.total
  have hle : min size left ≤ left := min_le_right size left
  simp only [Reader.openContainerOf, wp_bind, wp_get, hremaining, if_neg hsize, if_neg (not_le.mpr hdepth), wp_set,
    wp_pure, ← min_def]
  generalize min size left = narrowed at hle ⊢
  refine ⟨trivial, ⟨h.isMsg, ?_, ?_, hdepth, h.hasRoom, h.limit⟩, rfl, rfl, rfl⟩
  · exact h.ready.narrow h.isMsg (Int.natCast_nonneg narrowed) _ (by omega) _ _ _
  · simp only [heldBack, heldBack_update _ _ le_rfl, Function.update_self]
    omega

/-- A container is closed at its end: what was held back is content again. -/
theorem InMessage.closeContainer {isArray : Bool} {depth : ℕ} (h : InMessage cls r body n consumed left)
    (hdepth : r.depth = depth + 1) (hkind : r.containerIsArray depth = isArray) :
    wp (closeContainer cls isArray)
      (fun _ r' ↦ InMessage cls r' body n (consumed + left) (r.eOfs depth) ∧ r'.depth = depth ∧
        r'.eOfs = r.eOfs ∧ r'.containerIsArray = r.containerIsArray ∧ left ≤ (body.drop consumed).length)
      (fun _ _ ↦ (body.drop consumed).length < left) r := by
  have hend := h.contentEnd_eq
  have hsize : r.contentEnd - r.dataPtr = left := by omega
  have hclosed : Ready cls { r with depth := depth } r.dataPtr (body.drop consumed) left := by
    have hsame := h.ready.narrow h.isMsg (Int.natCast_nonneg left) _ hend depth r.eOfs r.containerIsArray
    have hdataEnd : min r.contentEnd r.dataEnd0 = r.dataEnd := by
      rw [h.ready.dataEnd_eq, if_pos h.isMsg, (h.ready.contentEnd_eq h.isMsg).2.2]
    rwa [hdataEnd] at hsame
  have hnot : ¬ r.containerIsArray depth ≠ isArray := not_not.mpr hkind
  simp only [Reader.closeContainer, wp_bind, wp_get, hdepth, wp_set, if_neg hnot, wp_modify, hsize]
  apply wp_mono (skip_spec hclosed h.hasBuffer)
  · intro _ r' h'
    obtain ⟨hmoved, hready, hwithin⟩ := h'
    have hwhole : (left : ℤ) ≤ (body.drop consumed).length := not_lt.mp (not_or.mp hwithin).1
    have hlast := (hready.contentEnd_eq h.isMsg).1
    have hopened := hready.narrow h.isMsg (Int.natCast_nonneg (r'.eOfs depth))
      (r'.contentEnd + r'.eOfs depth) (by omega) r'.depth r'.eOfs r'.containerIsArray
    have htotal := h.total
    rw [hdepth, heldBack] at htotal
    have hdepth_le := h.depth_le
    rw [List.drop_drop] at hopened
    obtain ⟨_, _, _, _, _, _, _, _, rfl⟩ := hmoved
    exact ⟨⟨h.isMsg, hopened, by simp only; omega, by simp only; omega, h.hasRoom, h.limit⟩, rfl, rfl, rfl, by omega⟩
  · intro _ _ h'
    rcases h' with hexceeds | hsmall
    · by_contra hwhole
      rcases hexceeds with hshort | ⟨-, hless⟩
      · exact hwhole (by omega)
      · exact lt_irrefl _ hless
    · exact absurd (hasRoom_skip h.hasRoom _) hsmall

theorem openContainer_inside (isArray : Bool) (h : InsideMessage cls body n r) :
    wp (openContainer cls isArray) (fun _ r' ↦ InsideMessage cls body n r') (fun _ _ ↦ True) r := by
  rw [openContainer_eq]
  apply wp_call (getPackedUInt22_inside h)
  · intro size r₁ h₁
    by_cases hsize : size = 0
    · simp only [openContainerOf, wp_bind, wp_get, if_pos hsize, wp_pure]
      exact h₁
    by_cases hdepth : readerMaxNestedObjects ≤ r₁.depth
    · simp only [openContainerOf, wp_bind, wp_get, if_neg hsize, if_pos hdepth, wp_throw]
    obtain ⟨consumed, left, hin⟩ := h₁
    apply wp_mono (hin.openContainerOf isArray hsize (not_le.mp hdepth))
    · exact fun _ _ h₂ ↦ ⟨_, _, h₂.2.1⟩
    · exact fun _ _ _ ↦ trivial
  · exact fun _ _ _ ↦ trivial

theorem closeContainer_inside (isArray : Bool) (h : InsideMessage cls body n r) :
    wp (closeContainer cls isArray) (fun _ r' ↦ InsideMessage cls body n r') (fun _ _ ↦ True) r := by
  obtain ⟨consumed, left, hin⟩ := h
  cases hdepth : r.depth with
  | zero => simp only [closeContainer, wp_bind, wp_get, hdepth, wp_throw]
  | succ depth =>
    by_cases hkind : r.containerIsArray depth = isArray
    · apply wp_mono (hin.closeContainer hdepth hkind)
      · exact fun _ _ h' ↦ ⟨_, _, h'.1⟩
      · exact fun _ _ _ ↦ trivial
    · have hwrong : r.containerIsArray depth ≠ isArray := hkind
      simp only [closeContainer, wp_bind, wp_get, hdepth, wp_set, if_pos hwrong, wp_throw]

theorem skip_inside {size : ℤ} {count : ℕ} (hcount : size = count) (h : InsideMessage cls body n r) :
    wp (skip cls size) (fun _ r' ↦ InsideMessage cls body n r') (fun _ _ ↦ True) r := by
  obtain ⟨consumed, left, hin⟩ := h
  subst hcount
  refine wp_mono (skip_spec hin.ready hin.hasBuffer) ?_ (fun _ _ _ ↦ trivial)
  rintro _ r' ⟨hmoved, hready, hexceeds⟩
  exact ⟨_, _, hin.take hmoved hready (hin.not_exceeds_le hexceeds)⟩

/-- Whatever a decoder does inside a message, it stays inside. -/
theorem MessageCall.run_inside (call : MessageCall) (h : InsideMessage cls body n r) :
    wp (call.run cls) (fun _ r' ↦ InsideMessage cls body n r') (fun _ _ ↦ True) r := by
  cases call with
  | read call =>
    simp only [run, wp_bind, wp_pure]
    exact readCall_inside call h
  | endOfContent =>
    simp only [run, Reader.endOfContent, wp_bind, wp_get, wp_pure]
    exact h
  | getPackedUInt22 =>
    simp only [run, wp_bind, wp_pure]
    exact getPackedUInt22_inside h
  | readArrayStart =>
    simp only [run, Reader.readArrayStart, Reader.endOfContent, wp_bind, wp_get, wp_pure, wp_ite]
    refine ⟨fun _ ↦ h, fun _ ↦ wp_mono (openContainer_inside true h) ?_ (fun _ _ _ ↦ trivial)⟩
    intro _ r₁ h₁
    exact ⟨fun _ ↦ getPackedUInt22_inside h₁, fun _ ↦ h₁⟩
  | readObjectStart =>
    simp only [run, Reader.readObjectStart, Reader.endOfContent, wp_bind, wp_get, wp_pure, wp_ite]
    refine ⟨fun _ ↦ h, fun _ ↦ wp_mono (openContainer_inside false h) ?_ (fun _ _ _ ↦ trivial)⟩
    intro _ r₁ h₁
    exact ⟨fun _ ↦ bytes_inside 1 h₁, fun _ ↦ h₁⟩
  | readArrayEnd => exact closeContainer_inside true h
  | readObjectEnd => exact closeContainer_inside false h
  | skipNested =>
    simp only [run, Reader.skipNested, Reader.endOfContent, skipContainer, wp_bind, wp_get, wp_pure, wp_ite]
    refine ⟨fun _ ↦ h, fun _ ↦ wp_mono (getPackedUInt22_inside h) ?_ (fun _ _ _ ↦ trivial)⟩
    intro _ r₁ h₁
    exact skip_inside rfl h₁

theorem runCalls_inside (calls : List MessageCall) (h : InsideMessage cls body n r) :
    wp (runCalls cls calls) (fun _ r' ↦ InsideMessage cls body n r') (fun _ _ ↦ True) r := by
  induction calls generalizing r with
  | nil => exact h
  | cons call calls ih =>
    simp only [runCalls, wp_bind]
    exact wp_mono (call.run_inside h) (fun _ _ ↦ ih) (fun _ _ ↦ id)

/-! ## From one message to the next -/

/-- Between two messages: `body` is ahead and nothing limits the reading. -/
structure Between (cls : ReaderClass) (r : DataReader) (body : List UInt8) : Prop where
  at_body : At cls r r.dataPtr body
  dataEnd_eq : r.dataEnd = available cls r

/-- The buffer has the room a skip needs, at a place where no message reaches the limit that
stands for no limit: a buffer of the client library, and a length of 32 bits. -/
structure Placed (r : DataReader) (n : ℕ) : Prop where
  hasRoom : 0x400 ≤ r.bufferEnd - r.bufferStart
  limit : r.bufferEnd + n ≤ noContentLimit

theorem Between.setMessageSize (hmsg : cls.isMsg) (h : Between cls r body) (hplaced : Placed r n) :
    wp (Reader.setMessageSize n) (fun _ r' ↦ InMessage cls r' body n 0 n) (fun _ _ ↦ False) r := by
  obtain ⟨hat, hdataEnd⟩ := h
  simp only [Reader.setMessageSize, wp_modify]
  refine ⟨hmsg, ⟨?_, ?_, fun _ ↦ ⟨rfl, Int.natCast_nonneg n, hdataEnd⟩⟩, by simp [heldBack], Nat.zero_le _,
    hplaced.hasRoom, hplaced.limit⟩
  · rw [List.drop_zero]
    exact hat.congr rfl rfl rfl rfl rfl rfl
  · rw [if_pos hmsg, hdataEnd, min_comm]
    rfl

/-- What the loop of `skipUnreadMessageBody` adds up: the slots from one to `depth`. -/
def unwound (word : ℕ → ℕ) : ℕ → ℕ
  | 0 => 0
  | depth + 1 => unwound word depth + word (depth + 1)

theorem unwindStack_spec {depth : ℕ} (hdepth : r.depth = depth) :
    wp (unwindStack depth)
      (fun _ r' ↦ r' = { r with depth := 0, contentEnd := r.contentEnd + unwound (eOfsAt r) depth })
      (fun _ _ ↦ False) r := by
  induction depth generalizing r with
  | zero =>
    simp only [unwindStack, wp_pure, unwound, Nat.cast_zero, add_zero]
    rw [← hdepth]
  | succ depth ih =>
    simp only [unwindStack, wp_bind, wp_modify]
    refine wp_mono (ih rfl) ?_ (fun _ _ ↦ id)
    rintro _ r' rfl
    have hword : eOfsAt { r with contentEnd := r.contentEnd + eOfsAt r (depth + 1), depth := depth } =
        eOfsAt r := rfl
    rw [hword]
    simp only [unwound]
    congr 1
    push_cast
    ring

theorem unwound_eq (word : ℕ → ℕ) {depth : ℕ} (hdepth : depth ≠ 0) :
    unwound word depth + word 0 = heldBack word depth + word depth := by
  induction depth with
  | zero => exact absurd rfl hdepth
  | succ depth ih =>
    rw [unwound, heldBack]
    cases depth with
    | zero => simp [unwound, heldBack, Nat.add_comm]
    | succ depth =>
      have hprevious := ih (Nat.succ_ne_zero depth)
      omega

theorem heldBack_eOfsAt {depth : ℕ} (hdepth : depth ≤ readerMaxNestedObjects) :
    heldBack (eOfsAt r) depth = heldBack r.eOfs depth := by
  induction depth with
  | zero => rfl
  | succ depth ih =>
    have hword : eOfsAt r depth = r.eOfs depth := by rw [eOfsAt, if_pos (by omega)]
    rw [heldBack, heldBack, ih (by omega), hword]

/-- The slots that are added are the ones that were pushed exactly when the slot above the stack
holds what the lowest one holds. -/
theorem unwound_eq_heldBack_iff (hdepth : r.depth ≤ readerMaxNestedObjects) :
    unwound (eOfsAt r) r.depth = heldBack r.eOfs r.depth ↔
      r.depth = 0 ∨ eOfsAt r r.depth = eOfsAt r 0 := by
  by_cases hzero : r.depth = 0
  · simp [hzero, unwound, heldBack]
  · have hsum := unwound_eq (eOfsAt r) hzero
    rw [heldBack_eOfsAt hdepth] at hsum
    omega

theorem At.le_bufferEnd {p : ℤ} {rest : List UInt8} (h : At cls r p rest) :
    p ≤ r.bufferEnd ∧ available cls r ≤ r.bufferEnd := by
  have hle := h.le_available
  by_cases hcls : cls.isChunked
  · rw [at_chunked hcls] at h
    rw [available_chunked hcls] at hle ⊢
    obtain ⟨raw, hholds, -⟩ := h
    have hend := hholds.streamDataEnd_le
    omega
  · rw [at_plain hcls] at h
    rw [available_plain hcls] at hle ⊢
    have hend := h.streamDataEnd_le
    omega

/-- The place where `nextMessage` is meant to leave the reader. -/
structure AtNextMessage (cls : ReaderClass) (r : DataReader) (next : List UInt8) : Prop where
  between : Between cls r next
  depth_eq : r.depth = 0
  contentEnd_eq : r.contentEnd = noContentLimit

/-- The buffer is where it was, and all data in it may be read. -/
structure SameBuffer (r r' : DataReader) : Prop where
  bufferStart_eq : r'.bufferStart = r.bufferStart
  bufferEnd_eq : r'.bufferEnd = r.bufferEnd
  dataEnd0_eq : r'.dataEnd0 = r'.dataEnd

/-- `nextMessage` passes over the unread content as it adds it up. -/
theorem Ready.nextMessage {rest : List UInt8} (h : Ready cls r r.dataPtr rest left) (hmsg : cls.isMsg)
    (hroom : 0x400 ≤ r.bufferEnd - r.bufferStart) (hlimit : r.bufferEnd ≤ noContentLimit) :
    wp (Reader.nextMessage cls)
      (fun _ r' ↦ AtNextMessage cls r' (rest.drop (left + unwound (eOfsAt r) r.depth)) ∧
        left + unwound (eOfsAt r) r.depth ≤ rest.length ∧ SameBuffer r r')
      (fun _ _ ↦ rest.length < left + unwound (eOfsAt r) r.depth ∨
        noContentLimit < r.dataPtr + (left + unwound (eOfsAt r) r.depth : ℕ)) r := by
  obtain ⟨hend, -, hend0⟩ := h.contentEnd_eq hmsg
  obtain ⟨hptr, hstop⟩ := h.at_rest.le_bufferEnd
  have hbuffer : HasBuffer r := by
    rw [HasBuffer]
    omega
  simp only [Reader.nextMessage, skipUnreadMessageBody, resetMessageSize, wp_bind, wp_get, wp_ite, wp_modify]
  constructor
  · intro _
    refine wp_mono (unwindStack_spec rfl) ?_ (fun _ _ ↦ False.elim)
    rintro _ _ rfl
    generalize hunread : left + unwound (eOfsAt r) r.depth = unread
    have hsize : r.contentEnd + (unwound (eOfsAt r) r.depth : ℤ) - r.dataPtr = unread := by
      rw [← hunread]
      push_cast
      omega
    simp only [hsize]
    have hready := h.narrow hmsg (by omega : 0 ≤ noContentLimit - r.dataPtr) noContentLimit (by omega)
      0 r.eOfs r.containerIsArray
    have hunlimited : min noContentLimit r.dataEnd0 = r.dataEnd0 := by
      rw [hend0]
      omega
    rw [hunlimited] at hready
    refine wp_mono (skip_spec hready hbuffer) ?_ ?_
    · rintro _ r' ⟨hmoved, hready', hexceeds⟩
      have hle : unread ≤ rest.length := by
        by_contra hlt
        exact hexceeds (.inl (by omega))
      have hat := hready'.at_rest
      obtain ⟨-, -, hend0'⟩ := hready'.contentEnd_eq hmsg
      have hdepth : r'.depth = 0 := by
        obtain ⟨_, _, _, _, _, _, _, _, rfl⟩ := hmoved
        rfl
      obtain ⟨hstart, hend⟩ := hmoved.buffer_eq
      exact ⟨⟨⟨hat.congr rfl rfl rfl rfl rfl rfl, hend0'⟩, hdepth, rfl⟩, hle, hstart, hend, rfl⟩
    · rintro _ _ (hexceeds | hsmall)
      · rcases hexceeds with hshort | ⟨-, hshort⟩
        · exact .inl (by omega)
        · exact .inr (by omega)
      · exact absurd (hasRoom_skip hroom _) hsmall
  · intro hdone
    obtain ⟨hnone, hdepth⟩ : r.contentEnd - r.dataPtr = 0 ∧ r.depth = 0 := by omega
    have hleft : left = 0 := by omega
    simp only [hdepth, unwound, hleft, add_zero]
    exact ⟨⟨⟨h.at_rest.congr rfl rfl rfl rfl rfl rfl, hend0⟩, rfl, rfl⟩, Nat.zero_le _, rfl, rfl, rfl⟩

theorem nextMessage_spec (h : InMessage cls r body n consumed left) :
    wp (nextMessage cls)
      (fun _ r' ↦ AtNextMessage cls r' (body.drop (consumed + (left + unwound (eOfsAt r) r.depth))) ∧
        left + unwound (eOfsAt r) r.depth ≤ (body.drop consumed).length ∧ SameBuffer r r')
      (fun _ _ ↦ (body.drop consumed).length < left + unwound (eOfsAt r) r.depth ∨
        n < consumed + (left + unwound (eOfsAt r) r.depth)) r := by
  have hlimit := h.limit
  have hptr := h.ready.at_rest.le_bufferEnd.1
  have hspec := h.ready.nextMessage h.isMsg h.hasRoom (by omega)
  rw [List.drop_drop] at hspec
  apply wp_mono hspec
  · exact fun _ _ ↦ id
  · intro _ _ hfail
    rcases hfail with hshort | hlong
    · exact .inl hshort
    · exact .inr (by omega)

/-- `nextMessage` returns and leaves the reader right after the message. -/
def Resynchronised (cls : ReaderClass) (r : DataReader) (next : List UInt8) : Prop :=
  ∃ r', nextMessage cls r = .ok () r' ∧ AtNextMessage cls r' next

theorem InMessage.resynchronised_iff (h : InMessage cls r body n consumed left) (hcomplete : n ≤ body.length) :
    Resynchronised cls r (body.drop n) ↔ r.depth = 0 ∨ eOfsAt r r.depth = eOfsAt r 0 := by
  have htotal := h.total
  have hspec := nextMessage_spec h
  rw [List.length_drop] at hspec
  rw [← unwound_eq_heldBack_iff h.depth_le]
  constructor
  · rintro ⟨r', hrun, hnext⟩
    rw [wp_ok hrun] at hspec
    obtain ⟨hwhere, hinside, -⟩ := hspec
    have hsame := congrArg List.length (hnext.between.at_body.unique hwhere.between.at_body)
    rw [List.length_drop, List.length_drop] at hsame
    omega
  · intro hsum
    have hlast : consumed + (left + unwound (eOfsAt r) r.depth) = n := by omega
    rw [hlast] at hspec
    obtain ⟨_, r', hrun, hnext, -⟩ := exists_ok_of_wp (wp_mono hspec (fun _ _ ↦ id) (fun _ _ hlt ↦ by omega))
    exact ⟨r', hrun, hnext⟩

theorem insideMessage_of_run {r₀ : DataReader} {calls : List MessageCall} (hmsg : cls.isMsg)
    (hbetween : Between cls r₀ body) (hplaced : Placed r₀ n)
    (hrun : (do setMessageSize n; runCalls cls calls) r₀ = .ok () r) : InsideMessage cls body n r := by
  have hframed : wp (do setMessageSize n; runCalls cls calls)
      (fun _ r' ↦ InsideMessage cls body n r') (fun _ _ ↦ True) r₀ := by
    rw [wp_bind]
    refine wp_mono (hbetween.setMessageSize hmsg hplaced) ?_ (fun _ _ ↦ False.elim)
    intro _ r₁ hin
    exact runCalls_inside calls ⟨0, n, hin⟩
  rwa [wp_ok hrun] at hframed

/-- After any successful calls inside a message of `n` bytes, `nextMessage` finds the next one exactly
when no container is open or the slot above the stack holds what the lowest slot holds. -/
theorem nextMessage_resynchronises_iff {r₀ : DataReader} {calls : List MessageCall} (hmsg : cls.isMsg)
    (hbetween : Between cls r₀ body) (hplaced : Placed r₀ n) (hcomplete : n ≤ body.length)
    (hrun : (do setMessageSize n; runCalls cls calls) r₀ = .ok () r) :
    Resynchronised cls r (body.drop n) ↔ r.depth = 0 ∨ eOfsAt r r.depth = eOfsAt r 0 := by
  obtain ⟨consumed, left, hin⟩ := insideMessage_of_run hmsg hbetween hplaced hrun
  exact hin.resynchronised_iff hcomplete

/-- A reader of messages over a buffer of 1024 bytes that starts at address 4096. -/
def messageReader (wire : List UInt8) : DataReader :=
  let raw : DataReader := ⟨fun _ ↦ 0, 0, 0, 0, 0, 0, 0, ⟨[], []⟩, 0, 0, fun _ ↦ 0, fun _ ↦ false, 0⟩
  constructBase raw 4096 1024 0 ⟨wire, []⟩

theorem messageReader_between (wire : List UInt8) : Between .msg (messageReader wire) wire := by
  refine ⟨(at_plain (by decide)).mpr ⟨le_rfl, ?_, ?_, ?_⟩, rfl⟩ <;>
    simp [messageReader, constructBase]

theorem messageReader_placed (wire : List UInt8) {n : ℕ} (hn : n < 2 ^ 32) : Placed (messageReader wire) n := by
  constructor
  · simp [messageReader, constructBase]
  · simp only [messageReader, constructBase, noContentLimit]
    omega

/-- What the tests below look at after the calls: the depth and the slots one and zero. -/
def slotsAfter (calls : List MessageCall) (n : ℕ) (body : List UInt8) : Option (ℕ × ℕ × ℕ) :=
  match (do setMessageSize n; runCalls .msg calls) (messageReader body) with
  | .ok _ r => some (r.depth, eOfsAt r 1, eOfsAt r 0)
  | .error _ _ => none

theorem exists_run_of_slotsAfter {calls : List MessageCall} {slots : ℕ × ℕ × ℕ}
    (h : slotsAfter calls n body = some slots) :
    ∃ r, (do setMessageSize n; runCalls .msg calls) (messageReader body) = .ok () r ∧
      (r.depth, eOfsAt r 1, eOfsAt r 0) = slots := by
  unfold slotsAfter at h
  cases hrun : (do setMessageSize n; runCalls .msg calls) (messageReader body) with
  | ok _ r =>
    rw [hrun] at h
    exact ⟨r, rfl, by simpa using h⟩
  | error _ r =>
    rw [hrun] at h
    cases h

/-- A closed object of two bytes and three more bytes are skipped. -/
theorem nextMessage_resynchronises_after_close :
    ∃ r, (do setMessageSize 6; runCalls .msg [.readObjectStart, .readObjectEnd])
        (messageReader [2, 7, 8, 9, 10, 11, 1, 2, 3]) = .ok () r ∧
      Resynchronised .msg r [1, 2, 3] := by
  have hslots : slotsAfter [.readObjectStart, .readObjectEnd] 6 [2, 7, 8, 9, 10, 11, 1, 2, 3] =
      some (0, 0, 3) := by decide +kernel
  obtain ⟨r, hrun, hslots⟩ := exists_run_of_slotsAfter hslots
  exact ⟨r, hrun, (nextMessage_resynchronises_iff rfl (messageReader_between _)
    (messageReader_placed _ (by omega)) (by decide) hrun).mpr (.inl (congrArg Prod.fst hslots))⟩

/-- An object left open: the slot it was pushed to is not added, `nextMessage` stops inside it. -/
theorem nextMessage_desynchronises :
    let body : List UInt8 := [2, 7, 8, 9, 10, 11, 1, 2, 3]
    Between .msg (messageReader body) body ∧ Placed (messageReader body) 6 ∧ 6 ≤ body.length ∧
      ∃ r, (do setMessageSize 6; runCalls .msg [.readObjectStart]) (messageReader body) = .ok () r ∧
        ¬ Resynchronised .msg r (body.drop 6) := by
  intro body
  have hplaced : Placed (messageReader body) 6 := messageReader_placed body (by omega)
  have hslots : slotsAfter [.readObjectStart] 6 body = some (1, 0, 3) := by decide +kernel
  obtain ⟨r, hrun, hslots⟩ := exists_run_of_slotsAfter hslots
  simp only [Prod.mk.injEq] at hslots
  obtain ⟨consumed, left, hin⟩ := insideMessage_of_run rfl (messageReader_between body) hplaced hrun
  refine ⟨messageReader_between body, hplaced, by decide, r, hrun, ?_⟩
  rw [hin.resynchronised_iff (by decide), hslots.1, hslots.2.1, hslots.2.2]
  decide

end DxApi.Reader
