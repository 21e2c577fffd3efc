import DxApi.Lib.Exec
import DxApi.Lib.Runs
import Mathlib.Data.List.Basic
import Mathlib.Data.List.Induction
import Mathlib.Algebra.Order.Ring.Int

/-!
# A stream that reads ahead

`InputStreamPreloader` stands between a reader and a source stream. `preload` appends bytes of the
source to a buffer, which is enlarged first, and `read` takes bytes out of the buffer and asks the
source for what is missing. A source that fails in `preload` leaves a buffer of the wrong size: after
a disconnect the unread bytes from before are not counted, after another error the bytes that did not
arrive are.
-/

namespace DxApi.Net

open Exec

/-- Why a read does not return. -/
inductive InputException
  | notConnected
  | disconnected
  | failed (errorCode : ℤ)
  deriving DecidableEq, Repr

/-- What a `read` of the source does: it delivers more than asked for, or it fails after some bytes,
fewer than asked for. -/
inductive SourceRead
  | delivers (more : ℕ)
  | fails (delivered : ℕ) (error : InputException)

/-- A stream of bytes, how much of it was taken, and how it behaves call by call. -/
structure SourceStream where
  bytes : ℕ → UInt8
  position : ℕ
  behaviour : ℕ → SourceRead
  calls : ℕ

namespace SourceStream

/-- The state after a call that took `count` bytes. -/
def advance (count : ℕ) (s : SourceStream) : SourceStream :=
  { s with position := s.position + count, calls := s.calls + 1 }

/-- The next `count` bytes. -/
def next (count : ℕ) (s : SourceStream) : List UInt8 :=
  (List.range count).map fun i ↦ s.bytes (s.position + i)

/-- The bytes that were taken so far. -/
def taken (s : SourceStream) : List UInt8 := (List.range s.position).map s.bytes

/-- `InputStream::read`; the source asserts that the minimum is not above the maximum. -/
def read (minSize maxSize : ℕ) : EStateM InputException SourceStream (List UInt8) := fun s ↦
  match s.behaviour s.calls with
  | .delivers more =>
    let count := min maxSize (minSize + more)
    .ok (s.next count) (s.advance count)
  | .fails delivered error => .error error (s.advance (min delivered (minSize - 1)))

/-- The error that ends the reading of `size` bytes in blocks, each read being for one byte or more. -/
def firstFailure (blockSize : ℕ) : ℕ → ℕ → SourceStream → Option InputException
  | 0, _, _ => none
  | fuel + 1, size, s =>
    if size = 0 then none
    else
      match s.behaviour s.calls with
      | .delivers more =>
        let count := min (min size blockSize) (1 + more)
        firstFailure blockSize fuel (size - count) (s.advance count)
      | .fails _ error => some error

end SourceStream

/-- The data members of `InputStreamPreloader`. -/
structure InputStreamPreloader where
  data : List UInt8
  readPtr : ℕ
  dataSize : ℕ
  readBlockSize : ℕ
  readBlockSize_pos : 0 < readBlockSize
  source : SourceStream
  /-- `sourceStream_` is not `NULL`. -/
  hasSource : Bool
  nBytesRead : ℕ
  closed : Bool

abbrev PreloaderM (α : Type) := EStateM InputException InputStreamPreloader α

namespace InputStreamPreloader

/-- A new preloader; a block size of 0 stands for the default. -/
def start (source : SourceStream) (readBlockSize : ℕ) : InputStreamPreloader where
  data := []
  readPtr := 0
  dataSize := 0
  readBlockSize := if readBlockSize = 0 then 0x2000 else readBlockSize
  readBlockSize_pos := by
    split
    · decide
    · exact Nat.pos_of_ne_zero ‹_›
  source := source
  hasSource := true
  nBytesRead := source.position
  closed := false

/-- `data_.resize(dataSize_ = size)`: new bytes are 0. -/
def resize (size : ℕ) (p : InputStreamPreloader) : InputStreamPreloader :=
  { p with data := p.data.take size ++ List.replicate (size - p.data.length) 0, dataSize := size }

/-- Bytes that are written into the buffer. -/
def overwrite (data : List UInt8) (writePtr : ℕ) (bytes : List UInt8) : List UInt8 :=
  data.take writePtr ++ bytes ++ data.drop (writePtr + bytes.length)

/-- A call on the source. -/
def onSource {α : Type} (program : EStateM InputException SourceStream α) : PreloaderM α :=
  zoom InputStreamPreloader.source (fun s p ↦ { p with source := s }) id program

def cleanup : PreloaderM Unit :=
  modify fun p ↦
    if p.readPtr ≠ 0 then
      let newSize := p.data.length - p.readPtr
      resize newSize { p with data := p.data.drop p.readPtr ++ p.data.drop newSize, readPtr := 0 }
    else p

/-- The loop of `preload`: where it stopped, how many bytes were missing then, and the exception that
left it. -/
def readBlocks : ℕ → ℕ → ℕ → PreloaderM (ℕ × ℕ × Option InputException)
  | 0, writePtr, nBytesLeft => return (writePtr, nBytesLeft, none)
  | fuel + 1, writePtr, nBytesLeft => do
    if nBytesLeft = 0 then
      return (writePtr, nBytesLeft, none)
    else
      let p ← get
      match ← attempt (onSource (SourceStream.read 1 (min nBytesLeft p.readBlockSize))) with
      | .ok bytes =>
        modify fun p ↦ { p with data := overwrite p.data writePtr bytes }
        readBlocks fuel (writePtr + bytes.length) (nBytesLeft - bytes.length)
      | .error error => return (writePtr, nBytesLeft, some error)

/-- The part of `preload` behind the loop. -/
def endPreload (sizeBefore nBytesToPreload writePtr nBytesLeft : ℕ) :
    Option InputException → PreloaderM ℕ
  | none => return nBytesToPreload - nBytesLeft
  | some .disconnected => do
    modify (resize (writePtr - sizeBefore))
    return nBytesToPreload - nBytesLeft
  | some error => throw error

/-- Every round of the loop reads a byte at least, so there are `nBytesToPreload` of them at most. -/
def preload (nBytesToPreload : ℕ) : PreloaderM ℕ := do
  cleanup
  let p ← get
  let sizeBefore := p.data.length
  if p.hasSource = false then
    return 0
  else
    modify (resize (sizeBefore + nBytesToPreload))
    let (writePtr, nBytesLeft, error) ← readBlocks nBytesToPreload sizeBefore nBytesToPreload
    endPreload sizeBefore nBytesToPreload writePtr nBytesLeft error

/-- The part of `read` that takes bytes out of the buffer. -/
def readBuffered (maxSize : ℕ) : PreloaderM (List UInt8) := do
  let p ← get
  let sizeRead := min (p.dataSize - p.readPtr) maxSize
  set { p with readPtr := p.readPtr + sizeRead }
  return (p.data.drop p.readPtr).take sizeRead

/-- The part of `read` that asks the source, behind `sizeRead` bytes of the buffer. -/
def readMissing (sizeRead minSize maxSize : ℕ) : PreloaderM (List UInt8) := do
  let p ← get
  if sizeRead < minSize then
    if p.hasSource = false then
      throw .disconnected
    else
      onSource (SourceStream.read (minSize - sizeRead) (maxSize - sizeRead))
  else
    return []

/-- `read`: the result are the bytes that were written to `to`. -/
def read (minSize maxSize : ℕ) : PreloaderM (List UInt8) := do
  let p ← get
  if p.closed then
    throw .notConnected
  else
    let bytes ← readBuffered maxSize
    let more ← readMissing bytes.length minSize maxSize
    modify fun p ↦ { p with nBytesRead := p.nBytesRead + (bytes ++ more).length }
    return bytes ++ more

/-- The bytes in the buffer that were not read. -/
def unread (p : InputStreamPreloader) : List UInt8 := (p.data.take p.dataSize).drop p.readPtr

end InputStreamPreloader

/-- A call on a preloader. -/
inductive PreloaderCall
  | preload (nBytesToPreload : ℕ)
  | read (minSize maxSize : ℕ)

/-- A preloader and what was read from it until a read failed. -/
structure PreloaderRun where
  preloader : InputStreamPreloader
  returned : List UInt8
  readFailed : Bool

namespace PreloaderRun

/-- A preloader for a source of which nothing was taken. -/
def start (bytes : ℕ → UInt8) (behaviour : ℕ → SourceRead) (readBlockSize : ℕ) : PreloaderRun :=
  ⟨.start ⟨bytes, 0, behaviour, 0⟩ readBlockSize, [], false⟩

def exec (r : PreloaderRun) : PreloaderCall → PreloaderRun
  | .preload nBytesToPreload =>
    { r with preloader := finalState (InputStreamPreloader.preload nBytesToPreload) r.preloader }
  | .read minSize maxSize =>
    match InputStreamPreloader.read minSize maxSize r.preloader with
    | .ok bytes p => ⟨p, if r.readFailed then r.returned else r.returned ++ bytes, r.readFailed⟩
    | .error _ p => ⟨p, r.returned, true⟩

/-- Calls one after the other; what they throw is caught. -/
def run (calls : List PreloaderCall) (r : PreloaderRun) : PreloaderRun := calls.foldl exec r

/-- What was read are the first bytes of the source, and until a read fails the others that were
taken from the source are still in the buffer. -/
structure Transparent (r : PreloaderRun) : Prop where
  in_order : r.returned = (List.range r.returned.length).map r.preloader.source.bytes
  none_lost : r.readFailed = false → r.returned ++ r.preloader.unread = r.preloader.source.taken

end PreloaderRun

/-- A failure of the source does no harm to a buffer with these unread bytes: there is none, or it is
a disconnect and there are no such bytes. -/
def Harmless (unread : List UInt8) : Option InputException → Prop
  | none => True
  | some .disconnected => unread = []
  | some _ => False

/-- `preload` does no harm to what is unread. -/
def InputStreamPreloader.HarmlessPreload (p : InputStreamPreloader) (nBytesToPreload : ℕ) : Prop :=
  Harmless p.unread (p.source.firstFailure p.readBlockSize nBytesToPreload nBytesToPreload)

/-! ## Reading the source -/

namespace SourceStream

variable {s : SourceStream}

theorem length_next (count : ℕ) : (s.next count).length = count := by
  rw [next, List.length_map, List.length_range]

theorem next_add (m n : ℕ) : s.next (m + n) = s.next m ++ (s.advance m).next n := by
  rw [next, next, next, List.range_add, List.map_append, List.map_map]
  congr 1
  apply List.map_congr_left
  intro i _
  show s.bytes (s.position + (m + i)) = s.bytes (s.position + m + i)
  rw [Nat.add_assoc]

theorem taken_advance (count : ℕ) : (s.advance count).taken = s.taken ++ s.next count := by
  show (List.range (s.position + count)).map s.bytes = _
  rw [List.range_add, List.map_append, List.map_map]
  rfl

theorem read_spec (minSize maxSize : ℕ) :
    wp (read minSize maxSize)
      (fun bytes s' ↦ ∃ more, s.behaviour s.calls = .delivers more ∧
        bytes = s.next (min maxSize (minSize + more)) ∧ s' = s.advance (min maxSize (minSize + more)))
      (fun error s' ↦ ∃ delivered, s.behaviour s.calls = .fails delivered error ∧
        s' = s.advance (min delivered (minSize - 1))) s := by
  unfold wp read
  cases hbehaviour : s.behaviour s.calls with
  | delivers more => exact ⟨more, rfl, rfl, rfl⟩
  | fails delivered error => exact ⟨delivered, rfl, rfl⟩

end SourceStream

namespace InputStreamPreloader

variable {p p' : InputStreamPreloader} {data bytes more : List UInt8} {writePtr : ℕ}

/-- Bytes written behind bytes that were written. -/
theorem overwrite_overwrite (hwrite : writePtr ≤ data.length) :
    overwrite (overwrite data writePtr bytes) (writePtr + bytes.length) more =
      overwrite data writePtr (bytes ++ more) := by
  have hlength : (data.take writePtr ++ bytes).length = writePtr + bytes.length := by
    rw [List.length_append, List.length_take, min_eq_left hwrite]
  have hrest : (data.drop (writePtr + bytes.length)).drop more.length =
      data.drop (writePtr + (bytes ++ more).length) := by
    rw [List.drop_drop, List.length_append, Nat.add_assoc]
  calc overwrite (overwrite data writePtr bytes) (writePtr + bytes.length) more
      = data.take writePtr ++ bytes ++ more ++ (data.drop (writePtr + bytes.length)).drop more.length := by
        rw [overwrite, overwrite, ← hlength, List.take_left, List.drop_append, List.drop_of_length_le (by omega),
          List.nil_append, Nat.add_sub_cancel_left]
    _ = overwrite data writePtr (bytes ++ more) := by rw [hrest, overwrite, List.append_assoc (data.take writePtr)]

theorem length_overwrite (hroom : writePtr + bytes.length ≤ data.length) :
    (overwrite data writePtr bytes).length = data.length := by
  simp only [overwrite, List.length_append, List.length_take, List.length_drop]
  omega

/-- Bytes written where a buffer was enlarged. -/
theorem overwrite_resize (size : ℕ) (bytes : List UInt8) :
    overwrite (resize (p.data.length + size) p).data p.data.length bytes =
      p.data ++ bytes ++ List.replicate (size - bytes.length) 0 := by
  have hresized : (resize (p.data.length + size) p).data = p.data ++ List.replicate size 0 := by
    rw [resize, List.take_of_length_le (Nat.le_add_right _ _), Nat.add_sub_cancel_left]
  rw [hresized, overwrite, List.take_left, List.drop_append, List.drop_of_length_le (Nat.le_add_right _ _),
    List.nil_append, Nat.add_sub_cancel_left, List.drop_replicate]

/-- What the loop has done: `count` bytes of the source stand where it began to write. -/
structure BlocksRead (p : InputStreamPreloader) (writePtr count : ℕ) (p' : InputStreamPreloader) : Prop where
  changed : ∃ calls, p' = { p with
    data := overwrite p.data writePtr (p.source.next count)
    source := { p.source with position := p.source.position + count, calls := calls } }

theorem BlocksRead.refl (p : InputStreamPreloader) (writePtr : ℕ) : BlocksRead p writePtr 0 p := by
  constructor
  refine ⟨p.source.calls, ?_⟩
  simp [overwrite, SourceStream.next]

theorem readBlocks_spec (fuel writePtr nBytesLeft : ℕ) (hfuel : nBytesLeft ≤ fuel)
    (hwrite : writePtr + nBytesLeft ≤ p.data.length) :
    wp (readBlocks fuel writePtr nBytesLeft)
      (fun result p' ↦ ∃ count, BlocksRead p writePtr count p' ∧ result.1 = writePtr + count ∧
        result.2.1 + count = nBytesLeft ∧ (result.2.2 = none ↔ result.2.1 = 0) ∧
        result.2.2 = p.source.firstFailure p.readBlockSize fuel nBytesLeft)
      (fun _ _ ↦ False) p := by
  induction fuel generalizing p writePtr nBytesLeft with
  | zero =>
    have hnone : nBytesLeft = 0 := Nat.le_zero.mp hfuel
    rw [readBlocks, wp_pure]
    exact ⟨0, .refl p writePtr, rfl, rfl, iff_of_true rfl hnone, rfl⟩
  | succ fuel ih =>
    rw [readBlocks, wp_ite]
    constructor
    · intro hnone
      rw [wp_pure]
      refine ⟨0, .refl p writePtr, rfl, rfl, iff_of_true rfl hnone, ?_⟩
      rw [SourceStream.firstFailure, if_pos hnone]
    · intro hleft
      have hblock := p.readBlockSize_pos
      rw [wp_bind, wp_get, wp_bind, wp_attempt, onSource, wp_zoom]
      apply wp_mono (SourceStream.read_spec _ _)
      · intro bytes s' ⟨more, hbehaviour, hbytes, hs'⟩
        have hlength : bytes.length = min (min nBytesLeft p.readBlockSize) (1 + more) := by
          rw [hbytes, SourceStream.length_next]
        rw [← hlength] at hbytes hs'
        have hle : bytes.length ≤ nBytesLeft := by omega
        have hpos : 0 < bytes.length := by omega
        rw [wp_bind, wp_modify]
        have hsame : (overwrite p.data writePtr bytes).length = p.data.length := length_overwrite (by omega)
        apply wp_mono (ih _ _ (by omega) (show _ ≤ (overwrite p.data writePtr bytes).length by omega))
        · intro result p' ⟨count, ⟨calls, hp'⟩, hresult, hleft', hnone, hfailure⟩
          refine ⟨bytes.length + count, ⟨calls, ?_⟩, by omega, by omega, hnone, ?_⟩
          · have hat : writePtr ≤ p.data.length := by omega
            rw [hp', overwrite_overwrite hat, hs', SourceStream.next_add, ← hbytes, ← Nat.add_assoc]
            rfl
          · rw [hfailure, SourceStream.firstFailure, if_neg hleft, hbehaviour, hs']
            simp only [← hlength]
        · exact fun _ _ hfalse ↦ hfalse
      · intro error s' ⟨delivered, hbehaviour, hs'⟩
        rw [wp_pure]
        refine ⟨0, ⟨p.source.calls + 1, ?_⟩, rfl, rfl, iff_of_false (by simp) hleft, ?_⟩
        · rw [hs', Nat.sub_self, Nat.min_zero]
          simp [overwrite, SourceStream.next, SourceStream.advance]
        · rw [SourceStream.firstFailure, if_neg hleft, hbehaviour]
          rfl

/-! ## The calls -/

/-- The whole buffer is in use. -/
structure WellFormed (p : InputStreamPreloader) : Prop where
  dataSize_eq : p.dataSize = p.data.length
  readPtr_le : p.readPtr ≤ p.dataSize

theorem WellFormed.unread_eq (h : WellFormed p) : p.unread = p.data.drop p.readPtr := by
  rw [unread, h.dataSize_eq, List.take_length]

theorem cleanup_spec (h : WellFormed p) :
    wp cleanup (fun _ p' ↦ p' = { p with data := p.unread, readPtr := 0, dataSize := p.unread.length })
      (fun _ _ ↦ False) p := by
  have hlength : p.unread.length = p.data.length - p.readPtr := by
    rw [h.unread_eq, List.length_drop]
  rw [cleanup, wp_modify]
  split
  · have htake : (p.data.drop p.readPtr ++ p.data.drop (p.data.length - p.readPtr)).take
        (p.data.length - p.readPtr) = p.unread := by
      rw [h.unread_eq]
      exact List.take_left' List.length_drop
    have hle := h.readPtr_le
    rw [h.dataSize_eq] at hle
    simp only [resize, htake, hlength]
    simp
  next hzero =>
    have hstart : p.readPtr = 0 := not_not.mp hzero
    have hall : p.unread = p.data := by
      rw [h.unread_eq, hstart, List.drop_zero]
    rw [hall, ← h.dataSize_eq, ← hstart]

/-- What `preload` leaves in the buffer, by the way that the reading of the source ended. -/
def bufferAfter (old new : List UInt8) (missing : ℕ) : Option InputException → List UInt8
  | none => old ++ new
  | some .disconnected => (old ++ new).take new.length
  | some _ => old ++ new ++ List.replicate missing 0

/-- The buffer is right if and only if the failure did no harm. -/
theorem bufferAfter_eq_iff (old new : List UInt8) {missing : ℕ} (error : Option InputException)
    (hmissing : error = none ↔ missing = 0) :
    bufferAfter old new missing error = old ++ new ↔ Harmless old error := by
  have hgarbage (h : missing ≠ 0) : ¬ old ++ new ++ List.replicate missing 0 = old ++ new := by
    intro heq
    have hlength := congrArg List.length heq
    rw [List.length_append, List.length_replicate] at hlength
    omega
  rcases error with _ | _ | _ | _
  · exact iff_of_true rfl trivial
  · exact iff_of_false (hgarbage (by simpa using hmissing)) id
  · constructor
    · intro heq
      have hlength := congrArg List.length heq
      rw [bufferAfter, List.length_take, List.length_append] at hlength
      exact List.eq_nil_of_length_eq_zero (by omega)
    · intro hnone
      rw [Harmless] at hnone
      rw [hnone, bufferAfter, List.nil_append, List.take_length]
  · exact iff_of_false (hgarbage (by simpa using hmissing)) id

/-- What `preload` has done, whichever way it ends. -/
structure Preloaded (p : InputStreamPreloader) (nBytesToPreload count : ℕ) (p' : InputStreamPreloader) :
    Prop where
  wellFormed : WellFormed p'
  hasSource : p'.hasSource = true
  bytes_eq : p'.source.bytes = p.source.bytes
  taken_eq : p'.source.taken = p.source.taken ++ p.source.next count
  unread_eq : p'.unread = bufferAfter p.unread (p.source.next count) (nBytesToPreload - count)
    (p.source.firstFailure p.readBlockSize nBytesToPreload nBytesToPreload)
  missing : p.source.firstFailure p.readBlockSize nBytesToPreload nBytesToPreload = none ↔
    nBytesToPreload - count = 0

/-- The end of the loop is cut off behind a disconnect. -/
theorem Preloaded.of_blocks {nBytesToPreload count : ℕ} {error : Option InputException}
    (hcount : count ≤ nBytesToPreload)
    (hdata : p'.data = p.unread ++ p.source.next count ++ List.replicate (nBytesToPreload - count) 0)
    (hsize : p'.dataSize = p.unread.length + nBytesToPreload) (hread : p'.readPtr = 0)
    (hbytes : p'.source.bytes = p.source.bytes)
    (htaken : p'.source.taken = p.source.taken ++ p.source.next count) (hsource : p'.hasSource = true)
    (hnone : error = none ↔ nBytesToPreload - count = 0)
    (hfailure : error = p.source.firstFailure p.readBlockSize nBytesToPreload nBytesToPreload) :
    Preloaded p nBytesToPreload count (if error = some .disconnected then resize count p' else p') := by
  have hlength : p'.data.length = p.unread.length + nBytesToPreload := by
    rw [hdata, List.length_append, List.length_append, SourceStream.length_next, List.length_replicate]
    omega
  rw [hfailure] at hnone
  by_cases hend : error = some .disconnected
  · rw [if_pos hend]
    have hcut : (resize count p').data = (p.unread ++ p.source.next count).take count := by
      have hfit : count ≤ (p.unread ++ p.source.next count).length := by
        rw [List.length_append, SourceStream.length_next]
        exact Nat.le_add_left _ _
      rw [resize, hlength, hdata, List.take_append_of_le_length hfit, Nat.sub_eq_zero_of_le (by omega),
        List.replicate_zero, List.append_nil]
    have hsame : (resize count p').data.length = count := by
      rw [hcut, List.length_take, List.length_append, SourceStream.length_next]
      omega
    have hwell : WellFormed (resize count p') := ⟨hsame.symm, hread.le.trans (Nat.zero_le _)⟩
    refine ⟨hwell, hsource, hbytes, htaken, ?_, hnone⟩
    have hstart : (resize count p').readPtr = 0 := hread
    rw [hwell.unread_eq, hstart, List.drop_zero, hcut, ← hfailure, hend, bufferAfter,
      SourceStream.length_next]
  · rw [if_neg hend]
    have hwell : WellFormed p' := ⟨hsize.trans hlength.symm, hread.le.trans (Nat.zero_le _)⟩
    refine ⟨hwell, hsource, hbytes, htaken, ?_, hnone⟩
    rw [hwell.unread_eq, hread, List.drop_zero, hdata, ← hfailure]
    rw [← hfailure] at hnone
    rcases error with _ | _ | _ | _
    · rw [hnone.mp rfl, bufferAfter, List.replicate_zero, List.append_nil]
    · rfl
    · exact absurd rfl hend
    · rfl

/-- A failing `preload` ends in the state that it had made. -/
theorem endPreload_spec (sizeBefore nBytesToPreload writePtr nBytesLeft : ℕ)
    (error : Option InputException) :
    let after := if error = some .disconnected then resize (writePtr - sizeBefore) p else p
    wp (endPreload sizeBefore nBytesToPreload writePtr nBytesLeft error) (fun _ p' ↦ p' = after)
      (fun _ p' ↦ p' = after) p := by
  rcases error with _ | _ | _ | _
  · rfl
  · rfl
  · rfl
  · rfl

theorem preload_spec (h : WellFormed p) (hsource : p.hasSource = true) (nBytesToPreload : ℕ) :
    wp (preload nBytesToPreload) (fun _ p' ↦ ∃ count, Preloaded p nBytesToPreload count p')
      (fun _ p' ↦ ∃ count, Preloaded p nBytesToPreload count p') p := by
  apply wp_call (cleanup_spec h)
  · rintro _ _ rfl
    have hconnected : ¬ p.hasSource = false := by simp [hsource]
    rw [wp_bind, wp_get, wp_ite]
    refine ⟨fun hnone ↦ absurd hnone hconnected, fun _ ↦ ?_⟩
    rw [wp_bind, wp_modify]
    have hroom : p.unread.length + nBytesToPreload ≤ (resize (p.unread.length + nBytesToPreload)
        { p with data := p.unread, readPtr := 0, dataSize := p.unread.length }).data.length := by
      simp [resize]
    apply wp_call (readBlocks_spec nBytesToPreload p.unread.length nBytesToPreload le_rfl hroom)
    · intro result p' ⟨count, ⟨calls, hp'⟩, hwrite, hleft, hnone, hfailure⟩
      have hcount : count ≤ nBytesToPreload := by omega
      have hdata : p'.data = p.unread ++ p.source.next count ++ List.replicate (nBytesToPreload - count) 0 := by
        have hwritten := overwrite_resize (p := { p with data := p.unread, readPtr := 0, dataSize := p.unread.length })
          nBytesToPreload (p.source.next count)
        rw [SourceStream.length_next] at hwritten
        rw [hp']
        exact hwritten
      have hsize : p'.dataSize = p.unread.length + nBytesToPreload := by
        rw [hp']
        rfl
      have hread : p'.readPtr = 0 := by
        rw [hp']
        rfl
      have hbytes : p'.source.bytes = p.source.bytes := by
        rw [hp']
        rfl
      have htaken : p'.source.taken = p.source.taken ++ p.source.next count := by
        rw [hp', ← SourceStream.taken_advance]
        rfl
      have hconnected' : p'.hasSource = true := by
        rw [hp']
        exact hsource
      have hmissing : nBytesToPreload - count = result.2.1 := by omega
      rw [← hmissing] at hnone
      have hafter : Preloaded p nBytesToPreload count
          (if result.2.2 = some .disconnected then resize (result.1 - p.unread.length) p' else p') := by
        rw [hwrite, Nat.add_sub_cancel_left]
        exact Preloaded.of_blocks hcount hdata hsize hread hbytes htaken hconnected' hnone hfailure
      apply wp_mono (endPreload_spec (p := p') p.unread.length nBytesToPreload result.1 result.2.1 result.2.2)
      · rintro _ _ rfl
        exact ⟨count, hafter⟩
      · rintro _ _ rfl
        exact ⟨count, hafter⟩
    · exact fun _ _ hfalse ↦ hfalse.elim
  · exact fun _ _ hfalse ↦ hfalse.elim

/-- What a read from the buffer has done. -/
theorem readBuffered_spec (h : WellFormed p) (maxSize : ℕ) :
    wp (readBuffered maxSize)
      (fun bytes p' ↦ bytes = p.unread.take maxSize ∧ p'.unread = p.unread.drop maxSize ∧ WellFormed p' ∧
        p'.source = p.source ∧ p'.hasSource = p.hasSource)
      (fun _ _ ↦ False) p := by
  have hlength : p.dataSize - p.readPtr = p.unread.length := by
    rw [h.unread_eq, h.dataSize_eq, List.length_drop]
  have hle := h.readPtr_le
  have hwell : WellFormed { p with readPtr := p.readPtr + min (p.dataSize - p.readPtr) maxSize } := by
    constructor
    · exact h.dataSize_eq
    · show p.readPtr + min (p.dataSize - p.readPtr) maxSize ≤ p.dataSize
      omega
  rw [readBuffered, wp_bind, wp_get, wp_bind, wp_set, wp_pure]
  refine ⟨?_, ?_, hwell, rfl, rfl⟩
  · rw [← h.unread_eq, hlength, List.take_eq_take_iff]
    omega
  · rw [hwell.unread_eq, ← List.drop_drop, ← h.unread_eq, hlength, List.drop_eq_drop_iff]
    omega

/-- The source is asked for bytes behind the buffer: either all of it was taken, or no byte is missing. -/
theorem append_missing (old : List UInt8) (maxSize wanted : ℕ) :
    old.take maxSize ++ p.source.next (min (maxSize - (old.take maxSize).length) wanted) ++ old.drop maxSize =
      old ++ p.source.next (min (maxSize - (old.take maxSize).length) wanted) := by
  by_cases hall : old.length ≤ maxSize
  · rw [List.drop_of_length_le hall, List.append_nil, List.take_of_length_le hall]
  · have hnone : maxSize - (old.take maxSize).length = 0 := by
      rw [List.length_take]
      omega
    rw [hnone, Nat.zero_min, SourceStream.next, List.range_zero, List.map_nil, List.append_nil, List.append_nil,
      List.take_append_drop]

/-- What `read` has done when it returns `bytes`. -/
structure ReadBytes (p : InputStreamPreloader) (bytes : List UInt8) (count : ℕ)
    (p' : InputStreamPreloader) : Prop where
  wellFormed : WellFormed p'
  hasSource : p'.hasSource = true
  bytes_eq : p'.source.bytes = p.source.bytes
  taken_eq : p'.source.taken = p.source.taken ++ p.source.next count
  unread_eq : bytes ++ p'.unread = p.unread ++ p.source.next count

theorem read_spec (h : WellFormed p) (hsource : p.hasSource = true) (minSize maxSize : ℕ) :
    wp (read minSize maxSize) (fun bytes p' ↦ ∃ count, ReadBytes p bytes count p')
      (fun _ p' ↦ WellFormed p' ∧ p'.hasSource = true ∧ p'.source.bytes = p.source.bytes) p := by
  rw [read, wp_bind, wp_get, wp_ite]
  constructor
  · intro _
    exact ⟨h, hsource, rfl⟩
  intro _
  apply wp_call (readBuffered_spec h maxSize)
  · rintro _ p₁ ⟨rfl, hunread, hwell, hsame, hhas⟩
    have hconnected : p₁.hasSource = true := hhas.trans hsource
    rw [wp_bind, readMissing, wp_bind, wp_get, wp_ite]
    constructor
    · intro hless
      rw [wp_ite]
      refine ⟨fun hnone ↦ absurd (hconnected.symm.trans hnone) (by decide), fun _ ↦ ?_⟩
      rw [onSource, wp_zoom]
      apply wp_mono (SourceStream.read_spec _ _)
      · intro bytes s' ⟨more, _, hbytes, hs'⟩
        rw [wp_bind, wp_modify, wp_pure]
        rw [hsame] at hbytes hs'
        generalize hcount : min (maxSize - (p.unread.take maxSize).length)
          (minSize - (p.unread.take maxSize).length + more) = count at hbytes hs'
        refine ⟨count, ⟨hwell.dataSize_eq, hwell.readPtr_le⟩, hconnected, ?_, ?_, ?_⟩
        · rw [hs']
          rfl
        · rw [hs', SourceStream.taken_advance]
        · show p.unread.take maxSize ++ bytes ++ p₁.unread = _
          rw [hunread, hbytes, ← hcount]
          exact append_missing p.unread _ _
      · intro _ s' ⟨delivered, _, hs'⟩
        refine ⟨⟨hwell.dataSize_eq, hwell.readPtr_le⟩, hconnected, ?_⟩
        rw [hs', hsame]
        rfl
    · intro _
      rw [wp_pure, wp_bind, wp_modify, wp_pure]
      refine ⟨0, ⟨hwell.dataSize_eq, hwell.readPtr_le⟩, hconnected, ?_, ?_, ?_⟩
      · rw [hsame]
      · rw [hsame, SourceStream.next, List.range_zero, List.map_nil, List.append_nil]
      · show p.unread.take maxSize ++ [] ++ p₁.unread = _
        rw [hunread, List.append_nil, List.take_append_drop, SourceStream.next, List.range_zero, List.map_nil,
          List.append_nil]
  · exact fun _ _ hfalse ↦ hfalse.elim

end InputStreamPreloader

/-! ## Runs -/

namespace PreloaderRun

open InputStreamPreloader

variable {r : PreloaderRun}

/-- What every call keeps, harmless or not. -/
structure Sound (r : PreloaderRun) : Prop where
  wellFormed : WellFormed r.preloader
  hasSource : r.preloader.hasSource = true

/-- A call under which the run stays transparent. -/
def Admits (r : PreloaderRun) : PreloaderCall → Prop
  | .preload nBytesToPreload => r.readFailed = false → r.preloader.HarmlessPreload nBytesToPreload
  | .read _ _ => True

/-- The front of what was taken from a source. -/
theorem in_order_of_append {bytes : ℕ → UInt8} {front rest : List UInt8} {position : ℕ}
    (h : front ++ rest = (List.range position).map bytes) :
    front = (List.range front.length).map bytes := by
  have hlength : front.length ≤ position := by
    have := congrArg List.length h
    rw [List.length_append, List.length_map, List.length_range] at this
    omega
  calc front = (front ++ rest).take front.length := List.take_left.symm
    _ = ((List.range position).take front.length).map bytes := by rw [h, List.map_take]
    _ = (List.range front.length).map bytes := by rw [List.take_range, min_eq_left hlength]

theorem exec_sound (h : Sound r) (call : PreloaderCall) : Sound (r.exec call) := by
  cases call with
  | preload nBytesToPreload =>
    obtain ⟨count, hdone⟩ := finalState_of_wp (preload_spec h.wellFormed h.hasSource nBytesToPreload)
    exact ⟨hdone.wellFormed, hdone.hasSource⟩
  | read minSize maxSize =>
    have hspec := read_spec h.wellFormed h.hasSource minSize maxSize
    rw [exec]
    cases hrun : read minSize maxSize r.preloader with
    | ok bytes p =>
      rw [wp_ok hrun] at hspec
      obtain ⟨count, hdone⟩ := hspec
      exact ⟨hdone.wellFormed, hdone.hasSource⟩
    | error error p =>
      rw [wp_error hrun] at hspec
      exact ⟨hspec.1, hspec.2.1⟩

theorem exec_preload (h : Sound r) (ht : Transparent r) (nBytesToPreload : ℕ) :
    Transparent (r.exec (.preload nBytesToPreload)) ↔
      (r.readFailed = false → r.preloader.HarmlessPreload nBytesToPreload) := by
  obtain ⟨count, hdone⟩ := finalState_of_wp (preload_spec h.wellFormed h.hasSource nBytesToPreload)
  have hbuffer := bufferAfter_eq_iff r.preloader.unread (r.preloader.source.next count) _ hdone.missing
  rw [← hdone.unread_eq] at hbuffer
  have hkept (hfailed : r.readFailed = false) :
      r.returned ++ (finalState (preload nBytesToPreload) r.preloader).unread =
        (finalState (preload nBytesToPreload) r.preloader).source.taken ↔
      r.preloader.HarmlessPreload nBytesToPreload := by
    rw [hdone.taken_eq, ← ht.none_lost hfailed, List.append_assoc, List.append_cancel_left_eq]
    exact hbuffer
  constructor
  · exact fun hafter hfailed ↦ (hkept hfailed).mp (hafter.none_lost hfailed)
  · intro hadmits
    constructor
    · rw [exec, hdone.bytes_eq]
      exact ht.in_order
    · exact fun hfailed ↦ (hkept hfailed).mpr (hadmits hfailed)

theorem exec_read (h : Sound r) (ht : Transparent r) (minSize maxSize : ℕ) :
    Transparent (r.exec (.read minSize maxSize)) := by
  have hspec := read_spec h.wellFormed h.hasSource minSize maxSize
  rw [exec]
  cases hrun : read minSize maxSize r.preloader with
  | ok bytes p =>
    rw [wp_ok hrun] at hspec
    obtain ⟨count, hdone⟩ := hspec
    cases hfailed : r.readFailed with
    | true =>
      constructor
      · show r.returned = (List.range r.returned.length).map p.source.bytes
        rw [hdone.bytes_eq]
        exact ht.in_order
      · exact fun hnot ↦ absurd hnot Bool.noConfusion
    | false =>
      have hlost : (r.returned ++ bytes) ++ p.unread = p.source.taken := by
        rw [List.append_assoc, hdone.unread_eq, ← List.append_assoc, ht.none_lost hfailed, hdone.taken_eq]
      exact ⟨in_order_of_append hlost, fun _ ↦ hlost⟩
  | error error p =>
    rw [wp_error hrun] at hspec
    constructor
    · show r.returned = (List.range r.returned.length).map p.source.bytes
      rw [hspec.2.2]
      exact ht.in_order
    · exact fun hnot ↦ absurd hnot Bool.noConfusion

theorem exec_transparent_iff (h : Sound r) (ht : Transparent r) (call : PreloaderCall) :
    Transparent (r.exec call) ↔ Admits r call := by
  cases call with
  | preload nBytesToPreload => exact exec_preload h ht nBytesToPreload
  | read minSize maxSize => exact iff_of_true (exec_read h ht minSize maxSize) trivial

/-- A run is transparent after each of its calls if and only if every `preload` of it that comes before
a failed read is harmless. -/
theorem preload_transparent_iff (bytes : ℕ → UInt8) (behaviour : ℕ → SourceRead) (readBlockSize : ℕ)
    (calls : List PreloaderCall) :
    (∀ done, done <+: calls → Transparent (run done (start bytes behaviour readBlockSize))) ↔
      ∀ done call, done ++ [call] <+: calls →
        Admits (run done (start bytes behaviour readBlockSize)) call := by
  have hsound : Sound (start bytes behaviour readBlockSize) := ⟨⟨rfl, Nat.le_refl 0⟩, rfl⟩
  have hfirst : Transparent (start bytes behaviour readBlockSize) := ⟨rfl, fun _ ↦ rfl⟩
  apply Runs.throughout_iff Sound
  · exact fun r call hr ↦ exec_sound hr call
  · exact fun r call hr hgood ↦ exec_transparent_iff hr hgood call
  · exact hsound
  · exact hfirst

/-- The source fails before a byte arrives, and a byte is read nevertheless. -/
theorem preload_invents :
    ¬ ∀ bytes behaviour readBlockSize calls,
      Transparent (run calls (start bytes behaviour readBlockSize)) := by
  intro hall
  have horder := (hall (fun _ ↦ 7) (fun _ ↦ .fails 0 (.failed 104)) 0 [.preload 1, .read 1 1]).in_order
  revert horder
  decide +kernel

end PreloaderRun

end DxApi.Net
