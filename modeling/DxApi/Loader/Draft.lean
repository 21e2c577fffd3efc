import DxApi.Loader.MessageBody
import DxApi.Writer.Patches

/-!
# A message without its place in the buffer

A `Draft` is what a writer does between `startMessage` and `finishMessage`, counted from the start of
the message: which bytes are stored, which containers are open and where lengths are to be expanded.
Which calls fail in it, and how long it gets, depends on the calls alone. The writer of a loader
follows the draft as long as there is room for it, wherever the message starts.
-/

namespace DxApi.Loader

open Exec ByteMemory ByteOrder Writer

/-! ## Drafts -/

/-- What a client writes through the writer that `next` returned. -/
inductive BodyWrite
  | leaf (write : LeafWrite)
  | arrayStart (nItems : ℕ)
  | arrayEnd
  | objectStart (typeIndex : UInt8)
  | objectEnd

def BodyWrite.exec : BodyWrite → WriterM Unit
  | leaf write => write.exec
  | arrayStart nItems => writeArrayStart nItems
  | arrayEnd => writeArrayEnd
  | objectStart typeIndex => writeObjectStart typeIndex
  | objectEnd => writeObjectEnd

/-- The bytes of the message, the containers that are open and the points at which lengths are
expanded; positions are counted from the start of the message. -/
structure Draft extends Patch where
  depth : ℕ
  containerHeader : ℕ → ℕ
  containerIsArray : ℕ → Bool
  containerContentsExtraSize : ℕ → ℕ
  expansionPoints : List ExpansionPoint

namespace Draft

/-- Nothing is written yet. -/
def start : Draft where
  toPatch := Patch.empty
  depth := 0
  containerHeader := fun _ ↦ 0
  containerIsArray := fun _ ↦ false
  containerContentsExtraSize := fun _ ↦ 0
  expansionPoints := []

def put (d : Draft) (patch : Patch) : Draft := { d with toPatch := d.toPatch.append patch }

/-- A container starts here; its length is not reserved yet. -/
def entered (isArray : Bool) (d : Draft) : Draft :=
  { d with
    depth := d.depth + 1
    containerContentsExtraSize := Function.update d.containerContentsExtraSize (d.depth + 1) 0
    containerHeader := Function.update d.containerHeader d.depth d.size
    containerIsArray := Function.update d.containerIsArray d.depth isArray }

/-- `openContainer`. -/
def openContainer (isArray : Bool) (d : Draft) : Option Draft :=
  if loaderMaxNestedObjects ≤ d.depth then none
  else some ((d.entered isArray).put (Patch.byte 0))

/-- The length that `closeContainer` computes for the innermost container. -/
def closedLength (d : Draft) (depth : ℕ) : ℕ :=
  d.size - (d.containerHeader depth + 1) + d.containerContentsExtraSize (depth + 1)

/-- The container ends here, and its length is stored. -/
def left (d : Draft) (depth length : ℕ) : Draft :=
  { d with
    depth := depth
    stored := Function.update d.stored (d.containerHeader depth) (some (UInt8.ofNat length)) }

/-- The length needs more bytes than the one reserved. -/
def expanded (d : Draft) (depth length : ℕ) : Draft :=
  { d with
    containerContentsExtraSize := Function.update d.containerContentsExtraSize depth
      (d.containerContentsExtraSize depth + extraHeaderBytes length)
    expansionPoints := d.expansionPoints ++ [⟨d.containerHeader depth + 1, packedLength length⟩] }

/-- `closeContainer`. -/
def closeContainer (isArray : Bool) (d : Draft) : Option Draft :=
  match d.depth with
  | 0 => none
  | depth + 1 =>
    if d.containerIsArray depth ≠ isArray then none
    else
      let length := d.closedLength depth
      if 0x80 ≤ length then some ((d.left depth length).expanded depth length)
      else some (d.left depth length)

/-- `writePackedUInt22`. -/
def countPatch (value : ℕ) : Patch :=
  if value < 0x80 then Patch.byte (UInt8.ofNat value)
  else
    let numBytes := (Nat.size (value / 0x40) + 7) / 8
    Patch.word (UInt8.ofNat (value % 0x40 + 0x40 + numBytes * 0x40) :: littleEndian 4 (value / 0x40))
      (numBytes + 1)

/-- A call that a client makes; none if it throws wherever the message is. -/
def write : BodyWrite → Draft → Option Draft
  | .leaf write, d => write.patch.map fun patch ↦ d.put patch
  | .arrayStart nItems, d => (d.openContainer true).map fun d ↦ d.put (countPatch (nItems % 2 ^ 32))
  | .arrayEnd, d => d.closeContainer true
  | .objectStart typeIndex, d => (d.openContainer false).map fun d ↦ d.put (Patch.byte typeIndex)
  | .objectEnd, d => d.closeContainer false

/-- `finishMessage` returns wherever there is room for the lengths. -/
def Finishable (d : Draft) : Prop :=
  d.depth = 0 ∧ (d.containerContentsExtraSize 0 = 0 ∨ d.expansionPoints = [] ∨
    Expandable 0 0 d.expansionPoints.reverse d.size (d.containerContentsExtraSize 0))

/-- How many bytes the message takes once its lengths are expanded. -/
def finishedSize (d : Draft) : ℕ := d.size + d.containerContentsExtraSize 0

end Draft

/-! ## What holds of every draft -/

/-- How many of the bytes that a point inserts were counted when its container was closed. -/
def ExpansionPoint.counted (point : ExpansionPoint) : ℕ := min (point.headerLength / 2 ^ 24) 2

/-- The bytes that were counted at some points. -/
def countedBytes (points : List ExpansionPoint) : ℕ := (points.map ExpansionPoint.counted).sum

namespace Draft

/-- The point was recorded for a container of the draft, and its length fits in its header. -/
structure SoundPoint (d : Draft) (point : ExpansionPoint) : Prop where
  positive : 0 < point.blockOffset
  within : point.blockOffset ≤ d.size
  header : (d.stored (point.blockOffset - 1)).isSome = true
  length : ∃ length, 0x80 ≤ length ∧ length < 2 ^ 26 ∧ point.headerLength = packedLength length

/-- What the calls keep. -/
structure Sound (d : Draft) : Prop where
  header : ∀ level < d.depth, d.containerHeader level < d.size ∧
    (d.stored (d.containerHeader level)).isSome = true
  /-- Every container that is closed at a level took a byte there. -/
  extra : ∀ level < d.depth, d.containerContentsExtraSize level ≤ 2 * d.containerHeader level
  extraTop : d.containerContentsExtraSize d.depth ≤ 2 * d.size
  /-- What is to be inserted was counted at a point. -/
  counted : ∀ level ≤ d.depth, d.containerContentsExtraSize level ≤ countedBytes d.expansionPoints
  points : ∀ point ∈ d.expansionPoints, d.SoundPoint point

variable {d d' : Draft}

theorem sound_start : start.Sound := by
  refine ⟨?_, ?_, le_rfl, fun _ _ ↦ Nat.zero_le _, ?_⟩
  · intro level hlevel
    exact absurd hlevel (Nat.not_lt_zero level)
  · intro level hlevel
    exact absurd hlevel (Nat.not_lt_zero level)
  · intro point hpoint
    exact absurd hpoint List.not_mem_nil

/-- What was stored stays stored. -/
theorem isSome_append (first second : Patch) {offset : ℕ} (h : (first.stored offset).isSome = true) :
    ((first.append second).stored offset).isSome = true := by
  unfold Patch.append
  by_cases hfirst : offset < first.size
  · simpa only [if_pos hfirst] using h
  · simp only [if_neg hfirst, Option.isSome_or, h, Bool.or_true]

theorem Sound.put (h : d.Sound) (patch : Patch) : (d.put patch).Sound := by
  have hsize : d.size ≤ (d.put patch).size := Nat.le_add_right d.size patch.size
  refine ⟨?_, h.extra, h.extraTop.trans (Nat.mul_le_mul_left 2 hsize), h.counted, ?_⟩
  · intro level hlevel
    obtain ⟨hlt, hstored⟩ := h.header level hlevel
    exact ⟨hlt.trans_le hsize, isSome_append _ _ hstored⟩
  · intro point hpoint
    have hold := h.points point hpoint
    exact ⟨hold.positive, hold.within.trans hsize, isSome_append _ _ hold.header, hold.length⟩

theorem Sound.openContainer (h : d.Sound) {isArray : Bool} (hopen : d.openContainer isArray = some d') :
    d'.Sound := by
  unfold Draft.openContainer at hopen
  by_cases hdeep : loaderMaxNestedObjects ≤ d.depth
  · rw [if_pos hdeep] at hopen
    cases hopen
  · rw [if_neg hdeep] at hopen
    rw [← Option.some.inj hopen]
    have hbyte : ((d.toPatch.append (Patch.byte 0)).stored d.size).isSome = true := by
      unfold Patch.append
      simp [Patch.byte, Patch.word]
    refine ⟨fun level (hlevel : level < d.depth + 1) ↦ ?_, fun level (hlevel : level < d.depth + 1) ↦ ?_,
      ?_, fun level (hlevel : level ≤ d.depth + 1) ↦ ?_, fun point hpoint ↦ ?_⟩
    · change Function.update d.containerHeader d.depth d.size level < d.size + 1 ∧
        ((d.toPatch.append (Patch.byte 0)).stored
          (Function.update d.containerHeader d.depth d.size level)).isSome = true
      by_cases hlast : level = d.depth
      · rw [hlast, Function.update_self]
        exact ⟨Nat.lt_succ_self _, hbyte⟩
      · rw [Function.update_of_ne hlast]
        obtain ⟨hlt, hstored⟩ := h.header level
          (Nat.lt_of_le_of_ne (Nat.le_of_lt_succ hlevel) hlast)
        exact ⟨Nat.lt_succ_of_lt hlt, isSome_append _ _ hstored⟩
    · change Function.update d.containerContentsExtraSize (d.depth + 1) 0 level ≤
        2 * Function.update d.containerHeader d.depth d.size level
      rw [Function.update_of_ne (Nat.ne_of_lt hlevel)]
      by_cases hlast : level = d.depth
      · rw [hlast, Function.update_self]
        exact h.extraTop
      · rw [Function.update_of_ne hlast]
        exact h.extra level (Nat.lt_of_le_of_ne (Nat.le_of_lt_succ hlevel) hlast)
    · change Function.update d.containerContentsExtraSize (d.depth + 1) 0 (d.depth + 1) ≤ _
      rw [Function.update_self]
      exact Nat.zero_le _
    · change Function.update d.containerContentsExtraSize (d.depth + 1) 0 level ≤ _
      by_cases hlast : level = d.depth + 1
      · rw [hlast, Function.update_self]
        exact Nat.zero_le _
      · rw [Function.update_of_ne hlast]
        exact h.counted level (Nat.le_of_lt_succ (Nat.lt_of_le_of_ne hlevel hlast))
    · have hold := h.points point hpoint
      exact ⟨hold.positive, hold.within.trans (Nat.le_succ _), isSome_append _ _ hold.header,
        hold.length⟩

theorem isSome_update {stored : ℕ → Option UInt8} {position offset : ℕ} (byte : UInt8)
    (h : (stored offset).isSome = true) :
    (Function.update stored position (some byte) offset).isSome = true := by
  by_cases hposition : offset = position
  · rw [hposition, Function.update_self]
    rfl
  · rwa [Function.update_of_ne hposition]

theorem Sound.left (h : d.Sound) {depth : ℕ} (hdepth : d.depth = depth + 1) (length : ℕ) :
    (d.left depth length).Sound := by
  have hlast : depth < d.depth := by omega
  obtain ⟨hlt, -⟩ := h.header depth hlast
  refine ⟨fun level (hlevel : level < depth) ↦ ?_, fun level (hlevel : level < depth) ↦
    h.extra level (by omega), ?_, fun level (hlevel : level ≤ depth) ↦ h.counted level (by omega),
    fun point hpoint ↦ ?_⟩
  · obtain ⟨hheader, hstored⟩ := h.header level (by omega)
    exact ⟨hheader, isSome_update _ hstored⟩
  · exact (h.extra depth hlast).trans (Nat.mul_le_mul_left 2 hlt.le)
  · have hold := h.points point hpoint
    exact ⟨hold.positive, hold.within, isSome_update _ hold.header, hold.length⟩

theorem countedBytes_append (points : List ExpansionPoint) (point : ExpansionPoint) :
    countedBytes (points ++ [point]) = countedBytes points + ExpansionPoint.counted point := by
  simp [countedBytes]

/-- The top byte of a header is at least the number of bytes that were counted. -/
theorem extraHeaderBytes_le_counted {length : ℕ} (h : length < 2 ^ 26) (blockOffset : ℕ) :
    extraHeaderBytes length ≤ ExpansionPoint.counted ⟨blockOffset, packedLength length⟩ := by
  unfold ExpansionPoint.counted packedLength extraHeaderBytes
  have hlow : length % 0x40 + length / 0x40 * 0x40 * 4 < 2 ^ 31 := by omega
  by_cases hlong : 0x4000 ≤ length
  · simp only [if_pos hlong]
    rw [Nat.mod_eq_of_lt (by omega)]
    omega
  · simp only [if_neg hlong]
    rw [Nat.mod_eq_of_lt (by omega)]
    omega

theorem Sound.closeContainer (h : d.Sound) (hsize : d.size < 2 ^ 24) {isArray : Bool}
    (hclose : d.closeContainer isArray = some d') : d'.Sound := by
  unfold Draft.closeContainer at hclose
  cases hdepth : d.depth with
  | zero =>
    rw [hdepth] at hclose
    cases hclose
  | succ depth =>
    have hlast : depth < d.depth := by omega
    obtain ⟨hlt, -⟩ := h.header depth hlast
    have hleft := h.left hdepth (d.closedLength depth)
    simp only [hdepth] at hclose
    by_cases hother : d.containerIsArray depth ≠ isArray
    · rw [if_pos hother] at hclose
      cases hclose
    · rw [if_neg hother] at hclose
      by_cases hlong : 0x80 ≤ d.closedLength depth
      · rw [if_pos hlong] at hclose
        rw [← Option.some.inj hclose]
        have hextra := h.extraTop
        have hbefore := h.extra depth hlast
        have hbound : d.closedLength depth < 2 ^ 26 := by
          rw [hdepth] at hextra
          unfold Draft.closedLength
          omega
        have hcounted := extraHeaderBytes_le_counted hbound (d.containerHeader depth + 1)
        have htwo : extraHeaderBytes (d.closedLength depth) ≤ 2 := by
          unfold extraHeaderBytes
          split_ifs <;> omega
        refine ⟨hleft.header, fun level (hlevel : level < depth) ↦ ?_, ?_,
          fun level (hlevel : level ≤ depth) ↦ ?_, fun point hpoint ↦ ?_⟩
        · change Function.update d.containerContentsExtraSize depth _ level ≤ _
          rw [Function.update_of_ne (Nat.ne_of_lt hlevel)]
          exact hleft.extra level hlevel
        · change Function.update d.containerContentsExtraSize depth
            (d.containerContentsExtraSize depth + extraHeaderBytes _) depth ≤ 2 * d.size
          rw [Function.update_self]
          omega
        · change Function.update d.containerContentsExtraSize depth
            (d.containerContentsExtraSize depth + extraHeaderBytes _) level ≤
            countedBytes (d.expansionPoints ++
              [⟨d.containerHeader depth + 1, packedLength (d.closedLength depth)⟩])
          rw [countedBytes_append]
          by_cases htop : level = depth
          · have hold := h.counted depth (by omega)
            rw [htop, Function.update_self]
            omega
          · have hold := h.counted level (by omega)
            rw [Function.update_of_ne htop]
            omega
        · cases List.mem_append.mp hpoint with
          | inl hold => 
            have hsound := hleft.points point hold
            exact ⟨hsound.positive, hsound.within, hsound.header, hsound.length⟩
          | inr hnew =>
            rw [List.mem_singleton.mp hnew]
            refine ⟨Nat.succ_pos _, hlt, ?_, _, hlong, hbound, rfl⟩
            change (Function.update d.stored (d.containerHeader depth) _
              (d.containerHeader depth)).isSome = true
            rw [Function.update_self]
            rfl
      · rw [if_neg hlong] at hclose
        rw [← Option.some.inj hclose]
        exact hleft

/-- Every call keeps a draft sound. -/
theorem Sound.write (h : d.Sound) (hsize : d.size < 2 ^ 24) {write : BodyWrite}
    (hwrite : d.write write = some d') : d'.Sound := by
  cases write with
  | leaf write =>
    obtain ⟨patch, -, hd'⟩ := Option.map_eq_some_iff.mp hwrite
    rw [← hd']
    exact h.put patch
  | arrayStart nItems =>
    obtain ⟨opened, hopened, hd'⟩ := Option.map_eq_some_iff.mp hwrite
    rw [← hd']
    exact (h.openContainer hopened).put _
  | objectStart typeIndex =>
    obtain ⟨opened, hopened, hd'⟩ := Option.map_eq_some_iff.mp hwrite
    rw [← hd']
    exact (h.openContainer hopened).put _
  | arrayEnd | objectEnd => exact h.closeContainer hsize hwrite

end Draft

/-! ## The writer follows the draft -/

/-- The writer has written the draft at `messageStart`, over the memory `old`. -/
structure Drafted (messageStart : ℤ) (old : Memory) (d : Draft) (w : DataWriter) : Prop where
  start : w.bufferStart + 4 ≤ messageStart
  dataPtr : w.dataPtr = messageStart + d.size
  mem : w.mem = d.toPatch.apply old messageStart
  depth : w.depth = d.depth
  header : ∀ level < d.depth, w.containerHeader level = messageStart + d.containerHeader level
  isArray : ∀ level < d.depth, w.containerIsArray level = d.containerIsArray level
  extra : ∀ level ≤ d.depth, w.containerContentsExtraSize level = d.containerContentsExtraSize level
  points : w.expansionPoints = d.expansionPoints.map fun point ↦
    ⟨(messageStart - w.bufferStart).toNat + point.blockOffset, point.headerLength⟩

/-- The draft, one call further, is written, and the pointer has not passed the end. -/
structure DraftedNext (messageStart : ℤ) (old : Memory) (d : Draft) (w w' : DataWriter) : Prop where
  drafted : Drafted messageStart old d w'
  bufferStart : w'.bufferStart = w.bufferStart
  dataEnd : w'.dataEnd = w.dataEnd
  within : w'.dataPtr ≤ w.dataEnd

/-- A call on the writer returns exactly if the draft has it and there is room. -/
def Follows (messageStart : ℤ) (old : Memory) (next : Option Draft) (program : WriterM Unit)
    (w : DataWriter) : Prop :=
  wp program
    (fun _ w' ↦ ∃ d', next = some d' ∧ DraftedNext messageStart old d' w w')
    (fun _ _ ↦ ∀ d', next = some d' → w.dataEnd < messageStart + d'.size) w

variable {messageStart : ℤ} {old : Memory} {d d' : Draft} {w w' : DataWriter}

theorem Drafted.put (h : Drafted messageStart old d w) (patch : Patch) :
    Drafted messageStart old (d.put patch) (patch.put w) := by
  refine ⟨h.start, ?_, ?_, h.depth, h.header, h.isArray, h.extra, h.points⟩
  · change w.dataPtr + patch.size = messageStart + (d.size + patch.size : ℕ)
    rw [h.dataPtr]
    push_cast
    ring
  · change patch.apply w.mem w.dataPtr = (d.toPatch.append patch).apply old messageStart
    rw [Patch.apply_append, h.mem, h.dataPtr]

theorem Drafted.follows_put (h : Drafted messageStart old d w) {patch : Option Patch}
    {program : WriterM Unit} (hprogram : PutsAt patch program w) :
    Follows messageStart old (patch.map fun patch ↦ d.put patch) program w := by
  have hptr := h.dataPtr
  apply wp_mono hprogram
  · rintro - w' ⟨p, hp, hw', hfits⟩
    rw [hw', hp]
    exact ⟨d.put p, rfl, h.put p, rfl, rfl, hfits⟩
  · intro error w' hover d' hd'
    obtain ⟨p, hp, hd'⟩ := Option.map_eq_some_iff.mp hd'
    have hbehind := hover p hp
    have hsize : (d'.size : ℤ) = d.size + p.size := by
      rw [← hd']
      exact Patch.size_append _ _
    omega

theorem Follows.bind {next : Option Draft} {program rest : WriterM Unit} {after : Draft → Draft}
    (h : Follows messageStart old next program w)
    (hrest : ∀ d' w', DraftedNext messageStart old d' w w' →
      Follows messageStart old (some (after d')) rest w')
    (hsize : ∀ d', d'.size ≤ (after d').size) :
    Follows messageStart old (next.map after) (program >>= fun _ ↦ rest) w := by
  unfold Follows
  rw [wp_bind]
  apply wp_mono h
  · rintro - w' ⟨d', hd', hnext⟩
    apply wp_mono (hrest d' w' hnext)
    · rintro - w'' ⟨d'', hd'', hnext'⟩
      rw [hd']
      exact ⟨d'', hd'', hnext'.drafted, hnext'.bufferStart.trans hnext.bufferStart,
        hnext'.dataEnd.trans hnext.dataEnd, hnext.dataEnd ▸ hnext'.within⟩
    · intro error w'' hover d'' hd''
      rw [hd'] at hd''
      have hbehind := hover d'' hd''
      rwa [hnext.dataEnd] at hbehind
  · intro error w' hover d'' hd''
    obtain ⟨d', hd', hafter⟩ := Option.map_eq_some_iff.mp hd''
    have hbehind := hover d' hd'
    have hmore := hsize d'
    rw [← hafter]
    omega

theorem size_put (d : Draft) (patch : Patch) : d.size ≤ (d.put patch).size :=
  Nat.le_add_right d.size patch.size

theorem puts_writePackedUInt22 (value : ℕ) :
    Puts (some (Draft.countPatch value)) (writePackedUInt22 value) := by
  intro w
  unfold Draft.countPatch writePackedUInt22
  by_cases hsmall : value < 0x80
  · rw [if_pos hsmall, if_pos hsmall]
    exact puts_putByte _ w
  · rw [if_neg hsmall, if_neg hsmall]
    have hput := puts_putBE (0 :: littleEndian 4 (value / 0x40)) ((Nat.size (value / 0x40) + 7) / 8 + 1) w
    unfold PutsAt at hput ⊢
    simp only [wp_bind, wp_get, wp_modify]
    apply wp_mono hput
    · rintro - w' ⟨p, hp, hw', hfits⟩
      obtain rfl : Patch.word _ _ = p := Option.some.inj hp
      refine ⟨_, rfl, ?_, hfits⟩
      rw [hw', Patch.put, Patch.put, Patch.apply_word, Patch.apply_word, store_head]
      rfl
    · intro error w' hover p hp
      obtain rfl : Patch.word _ _ = p := Option.some.inj hp
      exact hover (Patch.word (0 :: littleEndian 4 (value / 0x40)) _) rfl

theorem Drafted.entered (h : Drafted messageStart old d w) (isArray : Bool) :
    Drafted messageStart old (d.entered isArray) { w with
      depth := w.depth + 1
      containerContentsExtraSize := Function.update w.containerContentsExtraSize (w.depth + 1) 0
      containerHeader := Function.update w.containerHeader w.depth w.dataPtr
      containerIsArray := Function.update w.containerIsArray w.depth isArray } := by
  have hdepth := h.depth
  refine ⟨h.start, h.dataPtr, h.mem, congrArg Nat.succ hdepth, fun level (hlevel : level < d.depth + 1) ↦ ?_,
    fun level (hlevel : level < d.depth + 1) ↦ ?_, fun level (hlevel : level ≤ d.depth + 1) ↦ ?_,
    h.points⟩
  · change Function.update w.containerHeader w.depth w.dataPtr level =
      messageStart + (Function.update d.containerHeader d.depth d.size level : ℕ)
    rw [hdepth]
    by_cases hlast : level = d.depth
    · rw [hlast, Function.update_self, Function.update_self, h.dataPtr]
    · rw [Function.update_of_ne hlast, Function.update_of_ne hlast]
      exact h.header level (by omega)
  · change Function.update w.containerIsArray w.depth isArray level =
      Function.update d.containerIsArray d.depth isArray level
    rw [hdepth]
    by_cases hlast : level = d.depth
    · rw [hlast, Function.update_self, Function.update_self]
    · rw [Function.update_of_ne hlast, Function.update_of_ne hlast]
      exact h.isArray level (by omega)
  · change Function.update w.containerContentsExtraSize (w.depth + 1) 0 level =
      Function.update d.containerContentsExtraSize (d.depth + 1) 0 level
    rw [hdepth]
    by_cases hlast : level = d.depth + 1
    · rw [hlast, Function.update_self, Function.update_self]
    · rw [Function.update_of_ne hlast, Function.update_of_ne hlast]
      exact h.extra level (by omega)

theorem Drafted.openContainer (h : Drafted messageStart old d w) (isArray : Bool) :
    Follows messageStart old (d.openContainer isArray) (Writer.openContainer isArray) w := by
  unfold Follows Writer.openContainer Draft.openContainer
  rw [wp_bind, wp_get, h.depth]
  by_cases hdeep : loaderMaxNestedObjects ≤ d.depth
  · rw [if_pos hdeep, if_pos hdeep, wp_throw]
    exact fun d' hnone ↦ absurd hnone (Option.some_ne_none d').symm
  · rw [if_neg hdeep, if_neg hdeep, wp_bind, wp_set, ← h.depth]
    apply wp_mono ((h.entered isArray).follows_put (puts_putByte 0 _))
    · rintro - w' ⟨d', hd', hnext⟩
      exact ⟨d', hd', hnext.drafted, hnext.bufferStart, hnext.dataEnd, hnext.within⟩
    · exact fun _ _ hover ↦ hover

/-- A byte that was stored is stored once more. -/
theorem store_apply (patch : Patch) (mem : Memory) (start : ℤ) (position : ℕ) (byte : UInt8) :
    store (patch.apply mem start) (start + position) [byte] =
      ({ patch with stored := Function.update patch.stored position (some byte) } : Patch).apply mem
        start := by
  funext address
  by_cases hbefore : address < start
  · rw [store_of_lt (by omega), Patch.apply_of_lt hbefore, Patch.apply_of_lt hbefore]
  · rw [Patch.apply_of_ge (not_lt.mp hbefore)]
    by_cases hposition : address = start + position
    · have hoffset : (address - start).toNat = position := by omega
      rw [hoffset, hposition]
      simp [store]
    · have hoffset : (address - start).toNat ≠ position := by omega
      simp only [Function.update_of_ne hoffset]
      rw [← Patch.apply_of_ge (not_lt.mp hbefore)]
      by_cases hlt : address < start + position
      · exact store_of_lt hlt
      · refine store_of_ge ?_
        simp only [List.length_singleton]
        omega

theorem Drafted.left (h : Drafted messageStart old d w) {depth : ℕ} (hdepth : d.depth = depth + 1)
    (length : ℕ) :
    Drafted messageStart old (d.left depth length) { w with
      depth := depth
      mem := store w.mem (w.containerHeader depth + 1 - 1) [UInt8.ofNat length] } := by
  have hlast : depth < d.depth := by omega
  refine ⟨h.start, h.dataPtr, ?_, rfl, fun level (hlevel : level < depth) ↦ h.header level (by omega),
    fun level (hlevel : level < depth) ↦ h.isArray level (by omega),
    fun level (hlevel : level ≤ depth) ↦ h.extra level (by omega), h.points⟩
  have haddress : w.containerHeader depth + 1 - 1 = messageStart + d.containerHeader depth := by
    rw [h.header depth hlast]
    omega
  simp only [haddress, h.mem]
  exact store_apply d.toPatch old messageStart _ _

theorem Drafted.expanded (h : Drafted messageStart old d w) {length : ℕ} {blockOffset : ℕ}
    (hoffset : blockOffset =
      (messageStart - w.bufferStart).toNat + (d.containerHeader d.depth + 1)) :
    Drafted messageStart old (d.expanded d.depth length) { w with
      containerContentsExtraSize := Function.update w.containerContentsExtraSize w.depth
        (w.containerContentsExtraSize w.depth + extraHeaderBytes length)
      expansionPoints := w.expansionPoints ++ [⟨blockOffset, packedLength length⟩] } := by
  refine ⟨h.start, h.dataPtr, h.mem, h.depth, h.header, h.isArray, fun level hlevel ↦ ?_, ?_⟩
  · change Function.update w.containerContentsExtraSize w.depth _ level =
      Function.update d.containerContentsExtraSize d.depth _ level
    rw [h.depth, h.extra d.depth le_rfl]
    by_cases htop : level = d.depth
    · rw [htop, Function.update_self, Function.update_self]
    · rw [Function.update_of_ne htop, Function.update_of_ne htop]
      exact h.extra level hlevel
  · change w.expansionPoints ++ [_] = (d.expansionPoints ++ [_]).map _
    rw [List.map_append, h.points, hoffset]
    rfl

theorem Drafted.closeContainer (h : Drafted messageStart old d w) (hsound : d.Sound)
    (hwithin : w.dataPtr ≤ w.dataEnd) (hbuffer : w.dataEnd - w.bufferStart < 2 ^ 24) (isArray : Bool) :
    Follows messageStart old (d.closeContainer isArray) (Writer.closeContainer isArray) w := by
  unfold Follows Writer.closeContainer Draft.closeContainer
  rw [wp_bind, wp_get, h.depth]
  cases hdepth : d.depth with
  | zero => exact fun d' hnone ↦ absurd hnone (Option.some_ne_none d').symm
  | succ depth =>
    have hlast : depth < d.depth := by omega
    have hleft := h.left hdepth (d.closedLength depth)
    have hptr := h.dataPtr
    have hstart := h.start
    have hheader := h.header depth hlast
    have hextra := h.extra (depth + 1) (by omega)
    obtain ⟨hlt, -⟩ := hsound.header depth hlast
    have htop := hsound.extraTop
    rw [hdepth] at htop
    have hlength : ((w.dataPtr - (w.containerHeader depth + 1) +
        (w.containerContentsExtraSize (depth + 1) : ℤ)) % 2 ^ 64).toNat = d.closedLength depth := by
      have hvalue : w.dataPtr - (w.containerHeader depth + 1) +
          (w.containerContentsExtraSize (depth + 1) : ℤ) = (d.closedLength depth : ℕ) := by
        unfold Draft.closedLength
        omega
      rw [hvalue, Int.emod_eq_of_lt (by omega) (by unfold Draft.closedLength; omega), Int.toNat_natCast]
    simp only [wp_bind, wp_set, h.isArray depth hlast]
    by_cases hother : d.containerIsArray depth ≠ isArray
    · rw [if_pos hother, if_pos hother, wp_throw]
      exact fun d' hnone ↦ absurd hnone (Option.some_ne_none d').symm
    · rw [if_neg hother, if_neg hother]
      simp only [wp_bind, wp_modify, hlength]
      by_cases hlong : 0x80 ≤ d.closedLength depth
      · rw [if_pos hlong, if_pos hlong]
        have hoffset : ((w.containerHeader depth + 1 - w.bufferStart) % 2 ^ 32).toNat =
            (messageStart - w.bufferStart).toNat +
              ((d.left depth (d.closedLength depth)).containerHeader depth + 1) := by
          change _ = _ + (d.containerHeader depth + 1)
          rw [Int.emod_eq_of_lt (by omega) (by omega)]
          omega
        exact ⟨_, rfl, hleft.expanded hoffset, rfl, rfl, hwithin⟩
      · rw [if_neg hlong, if_neg hlong]
        exact ⟨_, rfl, hleft, rfl, rfl, hwithin⟩

/-- Every call on the writer follows the draft. -/
theorem Drafted.write (h : Drafted messageStart old d w) (hsound : d.Sound)
    (hwithin : w.dataPtr ≤ w.dataEnd) (hbuffer : w.dataEnd - w.bufferStart < 2 ^ 24) (write : BodyWrite) :
    Follows messageStart old (d.write write) write.exec w := by
  cases write with
  | leaf write => exact h.follows_put (write.exec_puts w)
  | arrayStart nItems =>
    exact (h.openContainer true).bind
      (fun _ _ hnext ↦ hnext.drafted.follows_put (puts_writePackedUInt22 _ _)) fun d ↦ size_put d _
  | objectStart typeIndex =>
    exact (h.openContainer false).bind
      (fun _ _ hnext ↦ hnext.drafted.follows_put (puts_putByte _ _)) fun d ↦ size_put d _
  | arrayEnd => exact h.closeContainer hsound hwithin hbuffer true
  | objectEnd => exact h.closeContainer hsound hwithin hbuffer false

end DxApi.Loader
