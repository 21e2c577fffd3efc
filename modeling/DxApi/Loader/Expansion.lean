import DxApi.Loader.Draft

/-!
# The bytes of a finished message

`finishMessage` moves the blocks between the expansion points apart and stores the headers in the
gaps. Where each byte of the finished message comes from depends on the draft alone, so that of one
draft, written at two places, the same bytes become a message exactly if the bytes are the same that
the draft did not store itself.
-/

namespace DxApi.Loader

open Exec ByteMemory ByteOrder Writer

variable {s t offset : ℤ} {w v : DataWriter} {d : Draft} {old other : Memory}

/-! ## One turn -/

/-- A header of two or three bytes that fit in the gap that is left for it. -/
def Plain (point : ExpansionPoint) : Prop :=
  point.headerLength / 2 ^ 24 = 1 ∧ point.headerLength % 2 ^ 24 < 2 ^ 16 ∨
    point.headerLength / 2 ^ 24 = 2

/-- The memory after a turn of `expandHeadersImplBasic`. -/
def turned (mem : Memory) (pStart pEnd offset : ℤ) (point : ExpansionPoint) : Memory :=
  let moved := move mem (pStart + offset) pStart (pEnd - pStart).toNat
  let diff : ℕ := point.headerLength / 2 ^ 24
  let pHdr := pStart - 1 + (offset - diff)
  store moved pHdr (List.zipWith (· ||| ·) (littleEndian 4 (point.headerLength % 2 ^ 24))
    (List.zipWith (· &&& ·) (bytes moved pHdr 4) (keepMask diff)))

/-- A byte of the header that is stored at a point. -/
def headerByte (point : ExpansionPoint) (index : ℕ) : UInt8 :=
  (littleEndian 4 (point.headerLength % 2 ^ 24)).getD index 0

theorem expandLoop_cons {base pEnd : ℤ} {point : ExpansionPoint} {points : List ExpansionPoint}
    (hcount : base + point.blockOffset ≤ pEnd) :
    expandLoop base (point :: points) pEnd offset w =
      expandLoop base points (base + point.blockOffset - 1)
        (offset - (point.headerLength / 2 ^ 24 : ℕ))
        { w with mem := turned w.mem (base + point.blockOffset) pEnd offset point } := by
  have hpositive : ¬ pEnd - (base + point.blockOffset) < 0 := by omega
  rw [expandLoop]
  simp only [memmove, if_neg hpositive]
  rfl

/-- The word that is stored over the bytes at `pHdr` changes the bytes of the header only. -/
theorem stored_header (mem : Memory) (pHdr address : ℤ) {point : ExpansionPoint} (hplain : Plain point) :
    store mem pHdr (List.zipWith (· ||| ·) (littleEndian 4 (point.headerLength % 2 ^ 24))
      (List.zipWith (· &&& ·) (bytes mem pHdr 4) (keepMask (point.headerLength / 2 ^ 24)))) address =
      if pHdr ≤ address ∧ address ≤ pHdr + (point.headerLength / 2 ^ 24 : ℕ) then
        headerByte point (address - pHdr).toNat
      else mem address := by
  by_cases hbefore : address < pHdr
  · rw [store_of_lt hbefore, if_neg (by omega)]
  · obtain ⟨index, hindex⟩ : ∃ index : ℕ, address = pHdr + index := ⟨(address - pHdr).toNat, by omega⟩
    have hoffset : (address - pHdr).toNat = index := by omega
    have hhigh : point.headerLength % 16777216 / 256 / 256 / 256 = 0 := by omega
    have hfull : ∀ byte : UInt8, byte &&& 255 = byte := fun _ ↦ UInt8.and_neg_one
    rw [store, if_pos (by omega), hoffset, headerByte]
    have hcases : index = 0 ∨ index = 1 ∨ index = 2 ∨ index = 3 ∨ 4 ≤ index := by omega
    have hbehind : ∀ diff : ℕ, 4 ≤ index →
        (List.zipWith (· ||| ·) (littleEndian 4 (point.headerLength % 2 ^ 24))
          (List.zipWith (· &&& ·) (bytes mem pHdr 4) (keepMask diff))).getD index (mem address) =
            mem address := by
      intro diff hlarge
      refine List.getD_eq_default _ _ (le_trans ?_ hlarge)
      simp [length_littleEndian]
    cases hplain with
    | inl hone =>
      have hthird : point.headerLength % 16777216 / 256 / 256 = 0 := by omega
      rw [hone.1]
      rcases hcases with rfl | rfl | rfl | rfl | hlarge
      · rw [if_pos (by omega)]
        simp [littleEndian, bytes, keepMask]
      · rw [if_pos (by omega)]
        simp [littleEndian, bytes, keepMask]
      · rw [if_neg (by omega), hindex]
        simp [littleEndian, bytes, keepMask, hthird, hfull, add_assoc]
      · rw [if_neg (by omega), hindex]
        simp [littleEndian, bytes, keepMask, hthird, hfull, add_assoc]
      · rw [if_neg (by omega)]
        exact hbehind _ hlarge
    | inr htwo =>
      rw [htwo]
      rcases hcases with rfl | rfl | rfl | rfl | hlarge
      · rw [if_pos (by omega)]
        simp [littleEndian, bytes, keepMask]
      · rw [if_pos (by omega)]
        simp [littleEndian, bytes, keepMask]
      · rw [if_pos (by omega)]
        simp [littleEndian, bytes, keepMask]
      · rw [if_neg (by omega), hindex]
        simp [littleEndian, bytes, keepMask, hhigh, hfull, add_assoc]
      · rw [if_neg (by omega)]
        exact hbehind _ hlarge

/-- Where the bytes come from after a turn: from the header in the gap, and otherwise from where they
were before the block was moved. Positions are counted from `s`. -/
theorem turned_eq (mem : Memory) (s : ℤ) {pEnd : ℤ} {point : ExpansionPoint} (hplain : Plain point)
    (hcount : (point.blockOffset : ℤ) ≤ pEnd) (position : ℤ) :
    turned mem (s + point.blockOffset) (s + pEnd) offset point (s + position) =
      if position < point.blockOffset - 1 + (offset - (point.headerLength / 2 ^ 24 : ℕ)) then
        mem (s + position)
      else if position < point.blockOffset + offset then
        headerByte point
          (position - (point.blockOffset - 1 + (offset - (point.headerLength / 2 ^ 24 : ℕ)))).toNat
      else if position < pEnd + offset then mem (s + (position - offset))
      else mem (s + position) := by
  have hmoved : ∀ position, position < point.blockOffset + offset ∨ pEnd + offset ≤ position →
      move mem (s + point.blockOffset + offset) (s + point.blockOffset)
        (s + pEnd - (s + point.blockOffset)).toNat (s + position) = mem (s + position) := by
    intro position houtside
    cases houtside with
    | inl hbefore => exact store_of_lt (by omega)
    | inr hbehind => exact store_of_ge (by rw [length_bytes]; omega)
  rw [turned, stored_header _ _ _ hplain]
  by_cases hfront : position < point.blockOffset - 1 + (offset - (point.headerLength / 2 ^ 24 : ℕ))
  · rw [if_pos hfront, if_neg (by omega)]
    exact hmoved position (by omega)
  · rw [if_neg hfront]
    by_cases hheader : position < point.blockOffset + offset
    · rw [if_pos hheader, if_pos (by omega)]
      congr 2
      ring
    · rw [if_neg hheader, if_neg (by omega)]
      by_cases hblock : position < pEnd + offset
      · obtain ⟨index, hindex⟩ : ∃ index : ℕ, position = point.blockOffset + offset + index :=
          ⟨(position - (point.blockOffset + offset)).toNat, by omega⟩
        have hoffset : (s + position - (s + point.blockOffset + offset)).toNat = index := by omega
        have hsource : s + (position - offset) = s + point.blockOffset + index := by omega
        have hlength : index <
            (bytes mem (s + point.blockOffset) (s + pEnd - (s + point.blockOffset)).toNat).length := by
          rw [length_bytes]
          omega
        have hbyte := getD_bytes mem (s + point.blockOffset)
          (s + pEnd - (s + point.blockOffset)).toNat index
        rw [if_pos hblock, move, store, if_pos (by omega), hoffset, hsource, ← hbyte,
          List.getD_eq_getElem _ _ hlength, List.getD_eq_getElem _ _ hlength]
      · rw [if_neg hblock]
        exact hmoved position (by omega)

/-! ## The loop -/

/-- Blocks that can be moved apart end where the ones after them start. -/
theorem blockOffset_le {points : List ExpansionPoint} {pEnd : ℤ}
    (h : Expandable 0 0 points pEnd offset) : ∀ point ∈ points, (point.blockOffset : ℤ) ≤ pEnd := by
  induction points generalizing pEnd offset with
  | nil => exact fun _ hnone ↦ absurd hnone List.not_mem_nil
  | cons first points ih =>
    obtain ⟨hfirst, hrest⟩ := h
    intro point hpoint
    cases List.mem_cons.mp hpoint with
    | inl heq =>
      rw [heq]
      omega
    | inr hmem =>
      have hle := ih hrest point hmem
      omega

/-- The two memories hold the same bytes, counted from two places, up to `stop`, the gap between
`pEnd` and `pEnd + offset` apart. -/
def SameBytes (s t : ℤ) (mem other : Memory) (pEnd offset stop : ℤ) : Prop :=
  ∀ position, 0 ≤ position → position < stop → position < pEnd ∨ pEnd + offset ≤ position →
    mem (s + position) = other (t + position)

/-- A turn keeps what is the same, as long as the byte is the same that was reserved for the length. -/
theorem turned_sameBytes {point : ExpansionPoint} {pEnd stop : ℤ} {mem other : Memory}
    (hplain : Plain point) (hcount : (point.blockOffset : ℤ) ≤ pEnd)
    (hgap : (point.headerLength / 2 ^ 24 : ℕ) ≤ offset) (hstop : pEnd + offset ≤ stop)
    (hheader : mem (s + (point.blockOffset - 1)) = other (t + (point.blockOffset - 1))) :
    SameBytes s t (turned mem (s + point.blockOffset) (s + pEnd) offset point)
      (turned other (t + point.blockOffset) (t + pEnd) offset point) (point.blockOffset - 1)
      (offset - (point.headerLength / 2 ^ 24 : ℕ)) stop ↔ SameBytes s t mem other pEnd offset stop := by
  constructor
  · intro hturned position hpositive hlt houtside
    by_cases hlate : pEnd + offset ≤ position
    · have hsame := hturned position hpositive hlt (by omega)
      rw [turned_eq mem s hplain hcount, turned_eq other t hplain hcount, if_neg (by omega),
        if_neg (by omega), if_neg (by omega), if_neg (by omega), if_neg (by omega),
        if_neg (by omega)] at hsame
      exact hsame
    · by_cases hmoved : point.blockOffset ≤ position
      · have hsame := hturned (position + offset) (by omega) (by omega) (by omega)
        have hback : position + offset - offset = position := by ring
        have hbehind : ¬ position + offset <
            point.blockOffset - 1 + (offset - (point.headerLength / 2 ^ 24 : ℕ)) := by omega
        have hpast : ¬ position + offset < point.blockOffset + offset := by omega
        have hblock : position + offset < pEnd + offset := by omega
        rw [turned_eq mem s hplain hcount, turned_eq other t hplain hcount, if_neg hbehind,
          if_neg hbehind, if_neg hpast, if_neg hpast, if_pos hblock, if_pos hblock, hback] at hsame
        exact hsame
      · by_cases hreserved : position = point.blockOffset - 1
        · rw [hreserved]
          exact hheader
        · have hsame := hturned position hpositive hlt (by omega)
          rw [turned_eq mem s hplain hcount, turned_eq other t hplain hcount, if_pos (by omega),
            if_pos (by omega)] at hsame
          exact hsame
  · intro hsame position hpositive hlt houtside
    rw [turned_eq mem s hplain hcount, turned_eq other t hplain hcount]
    by_cases hfront : position < point.blockOffset - 1 + (offset - (point.headerLength / 2 ^ 24 : ℕ))
    · rw [if_pos hfront, if_pos hfront]
      exact hsame position hpositive hlt (by omega)
    · rw [if_neg hfront, if_neg hfront]
      by_cases hword : position < point.blockOffset + offset
      · rw [if_pos hword, if_pos hword]
      · rw [if_neg hword, if_neg hword]
        by_cases hblock : position < pEnd + offset
        · rw [if_pos hblock, if_pos hblock]
          exact hsame (position - offset) (by omega) (by omega) (by omega)
        · rw [if_neg hblock, if_neg hblock]
          exact hsame position hpositive hlt (by omega)

/-- Both loops succeed, and leave the same bytes exactly if the bytes were the same. -/
theorem expandLoop_sameBytes {points : List ExpansionPoint} {pEnd stop : ℤ}
    (hplain : ∀ point ∈ points, Plain point) (hexpandable : Expandable 0 0 points pEnd offset)
    (hstop : pEnd + offset ≤ stop)
    (hheader : ∀ point ∈ points,
      w.mem (s + (point.blockOffset - 1)) = v.mem (t + (point.blockOffset - 1))) :
    wp (expandLoop s points (s + pEnd) offset)
      (fun result w' ↦ (result.2 = 0 ∧ s < result.1) ∧
        wp (expandLoop t points (t + pEnd) offset)
          (fun result v' ↦ (result.2 = 0 ∧ t < result.1) ∧
            (SameBytes s t w'.mem v'.mem 0 0 stop ↔ SameBytes s t w.mem v.mem pEnd offset stop))
          (fun _ _ ↦ False) v)
      (fun _ _ ↦ False) w := by
  induction points generalizing pEnd offset w v with
  | nil =>
    obtain ⟨hzero, hpositive⟩ := hexpandable
    have hstart : ∀ place : ℤ, place < place + pEnd := fun place ↦ by omega
    refine ⟨⟨hzero, hstart s⟩, ⟨hzero, hstart t⟩, ?_⟩
    constructor
    · exact fun h position hle hlt _ ↦ h position hle hlt (by omega)
    · exact fun h position hle hlt _ ↦ h position hle hlt (by omega)
  | cons point points ih =>
    obtain ⟨hfirst, hrest⟩ := hexpandable
    have hcount : (point.blockOffset : ℤ) ≤ pEnd := by omega
    have hpoint := hplain point List.mem_cons_self
    have hinserted := hrest.offset_eq
    have hgap : (point.headerLength / 2 ^ 24 : ℕ) ≤ offset := by omega
    rw [zero_add] at hrest
    have hfront : ∀ other ∈ points,
        turned w.mem (s + point.blockOffset) (s + pEnd) offset point (s + (other.blockOffset - 1)) =
          turned v.mem (t + point.blockOffset) (t + pEnd) offset point
            (t + (other.blockOffset - 1)) := by
      intro other hother
      have hle := blockOffset_le hrest other hother
      rw [turned_eq _ s hpoint hcount, turned_eq _ t hpoint hcount, if_pos (by omega), if_pos (by omega)]
      exact hheader other (List.mem_cons_of_mem _ hother)
    have hturned := turned_sameBytes hpoint hcount hgap hstop (hheader point List.mem_cons_self)
    have hloop := @ih _ { w with mem := turned w.mem (s + point.blockOffset) (s + pEnd) offset point }
      { v with mem := turned v.mem (t + point.blockOffset) (t + pEnd) offset point }
      (point.blockOffset - 1) (fun other hother ↦ hplain other (List.mem_cons_of_mem _ hother)) hrest
      (by omega) hfront
    rw [← add_sub_assoc, ← add_sub_assoc] at hloop
    have hs := @expandLoop_cons offset w s (s + pEnd) point points (by omega)
    have ht := @expandLoop_cons offset v t (t + pEnd) point points (by omega)
    rw [wp_congr hs]
    apply wp_mono hloop
    · intro result w' hw'
      refine ⟨hw'.1, ?_⟩
      rw [wp_congr ht]
      apply wp_mono hw'.2
      · exact fun _ _ hsame ↦ ⟨hsame.1, hsame.2.trans hturned⟩
      · exact fun _ _ hfalse ↦ hfalse
    · exact fun _ _ hfalse ↦ hfalse

/-! ## Finishing a draft -/

/-- Points counted from a later place in the buffer. -/
theorem expandLoop_shift (base : ℤ) (shift : ℕ) (points : List ExpansionPoint) (pEnd offset : ℤ) :
    expandLoop base (points.map fun point ↦ ⟨shift + point.blockOffset, point.headerLength⟩) pEnd offset =
      expandLoop (base + shift) points pEnd offset := by
  induction points generalizing pEnd offset with
  | nil => rfl
  | cons point points ih =>
    have hstart : base + (shift + point.blockOffset : ℕ) = base + shift + point.blockOffset := by
      push_cast
      ring
    simp only [List.map_cons, expandLoop, ih, hstart]

theorem expandable_shift {base : ℤ} {shift : ℕ} {messageStart : ℤ} (h : base + shift = messageStart)
    (points : List ExpansionPoint) (pEnd offset : ℤ) :
    Expandable base messageStart
        (points.map fun point ↦ ⟨shift + point.blockOffset, point.headerLength⟩) (messageStart + pEnd)
        offset ↔ Expandable 0 0 points pEnd offset := by
  induction points generalizing pEnd offset with
  | nil =>
    change offset = 0 ∧ messageStart < messageStart + pEnd ↔ offset = 0 ∧ 0 < pEnd
    constructor <;> exact fun hdone ↦ ⟨hdone.1, by omega⟩
  | cons point points ih =>
    have hstart : base + (shift + point.blockOffset : ℕ) = messageStart + point.blockOffset := by
      push_cast
      omega
    have hnext : messageStart + point.blockOffset - 1 = messageStart + (point.blockOffset - 1) := by ring
    simp only [List.map_cons, Expandable, hstart, hnext, ih, zero_add]
    constructor <;> exact fun hdone ↦ ⟨by omega, hdone.2⟩

theorem countedBytes_cons (point : ExpansionPoint) (points : List ExpansionPoint) :
    countedBytes (point :: points) = ExpansionPoint.counted point + countedBytes points := by
  simp [countedBytes]

theorem countedBytes_le (points : List ExpansionPoint) : countedBytes points ≤ inserted points := by
  induction points with
  | nil => exact le_rfl
  | cons point points ih =>
    have hpoint : ExpansionPoint.counted point ≤ point.headerLength / 2 ^ 24 := Nat.min_le_left _ _
    rw [countedBytes_cons, inserted_cons]
    omega

/-- If no more bytes are inserted than were counted, no header has more than three bytes. -/
theorem headerLength_le {points : List ExpansionPoint} (h : inserted points ≤ countedBytes points) :
    ∀ point ∈ points, point.headerLength / 2 ^ 24 ≤ 2 := by
  induction points with
  | nil => exact fun _ hnone ↦ absurd hnone List.not_mem_nil
  | cons first points ih =>
    have hrest := countedBytes_le points
    have hfirst : ExpansionPoint.counted first = min (first.headerLength / 2 ^ 24) 2 := rfl
    rw [countedBytes_cons, inserted_cons] at h
    intro point hpoint
    cases List.mem_cons.mp hpoint with
    | inl heq =>
      rw [heq]
      omega
    | inr hmem => exact ih (by omega) point hmem

theorem plain_of_le {point : ExpansionPoint} (hlength : ∃ length, 0x80 ≤ length ∧ length < 2 ^ 26 ∧
    point.headerLength = packedLength length) (hle : point.headerLength / 2 ^ 24 ≤ 2) : Plain point := by
  obtain ⟨length, -, hshort, hheader⟩ := hlength
  have hlow : length % 0x40 + length / 0x40 * 0x40 * 4 < 2 ^ 31 := by omega
  unfold Plain
  rw [hheader] at hle ⊢
  unfold packedLength extraHeaderBytes at hle ⊢
  by_cases hlong : 0x4000 ≤ length
  · simp only [if_pos hlong] at hle ⊢
    rw [Nat.mod_eq_of_lt (by omega)] at hle ⊢
    right
    omega
  · simp only [if_neg hlong] at hle ⊢
    have hsmall : length % 0x40 + length / 0x40 * 0x40 * 4 < 2 ^ 16 - 128 := by omega
    rw [Nat.mod_eq_of_lt (by omega)]
    left
    constructor <;> omega

/-- The bytes in which two copies of a draft may differ are those that it did not store. -/
def Draft.Leftovers (d : Draft) (s t : ℤ) (old other : Memory) : Prop :=
  ∀ position < d.size, d.stored position = none → old (s + position) = other (t + position)

theorem apply_at (patch : Patch) (mem : Memory) (s : ℤ) (position : ℕ) :
    patch.apply mem s (s + position) = (patch.stored position).getD (mem (s + position)) := by
  have hoffset : (s + position - s).toNat = position := by omega
  rw [Patch.apply_of_ge (by omega), hoffset]

theorem Drafted.sameBytes_iff (h : Drafted s old d w) (h' : Drafted t other d v) :
    (∀ position < d.size, w.mem (s + position) = v.mem (t + position)) ↔ d.Leftovers s t old other := by
  rw [h.mem, h'.mem]
  simp only [apply_at]
  constructor
  · intro hsame position hlt hnone
    have hbyte := hsame position hlt
    rwa [hnone] at hbyte
  · intro hleftovers position hlt
    cases hstored : d.stored position with
    | none => exact hleftovers position hlt hstored
    | some byte => rfl

theorem Draft.Sound.no_extra (hsound : d.Sound) (hpoints : d.expansionPoints = []) :
    d.containerContentsExtraSize 0 = 0 := by
  have hcounted := hsound.counted 0 (Nat.zero_le _)
  rw [hpoints] at hcounted
  exact Nat.le_zero.mp hcounted

theorem Draft.Finishable.expandable (h : d.Finishable) (hsound : d.Sound)
    (hextra : d.containerContentsExtraSize 0 ≠ 0) :
    Expandable 0 0 d.expansionPoints.reverse d.size (d.containerContentsExtraSize 0) := by
  cases h.2 with
  | inl hnone => exact absurd hnone hextra
  | inr hmore =>
    cases hmore with
    | inl hempty => exact absurd (hsound.no_extra hempty) hextra
    | inr hexpandable => exact hexpandable

/-- The writer can finish the message exactly if the draft can be finished and there is room. -/
theorem Drafted.finishable_iff (h : Drafted s old d w) :
    Finishable s w ↔ d.Finishable ∧
      (d.containerContentsExtraSize 0 = 0 ∨ s + d.finishedSize ≤ w.dataEnd) := by
  have hextra := h.extra 0 (Nat.zero_le _)
  have hstart := h.start
  have hshift : w.bufferStart + ((s - w.bufferStart).toNat : ℤ) = s := by omega
  have hsize : s + (d.finishedSize : ℤ) = w.dataPtr + d.containerContentsExtraSize 0 := by
    rw [h.dataPtr, Draft.finishedSize]
    push_cast
    ring
  unfold Finishable Draft.Finishable
  rw [hextra, h.depth, h.points, hsize, ← List.map_reverse, List.map_eq_nil_iff, h.dataPtr,
    expandable_shift hshift]
  constructor
  · intro hfinishable
    refine ⟨⟨hfinishable.1, ?_⟩, hfinishable.2.imp id And.left⟩
    exact hfinishable.2.imp id And.right
  · intro hfinishable
    refine ⟨hfinishable.1.1, ?_⟩
    cases hfinishable.2 with
    | inl hnone => exact Or.inl hnone
    | inr hfits => exact hfinishable.1.2.imp id fun hexpandable ↦ ⟨hfits, hexpandable⟩

theorem finishedSize_eq (d : Draft) (s : ℤ) :
    s + (d.finishedSize : ℤ) = s + d.size + (d.containerContentsExtraSize 0 : ℤ) := by
  rw [Draft.finishedSize]
  push_cast
  ring

/-- The loop of `finishMessage`, counted from the start of the message. -/
theorem Drafted.finishMessage_expands (h : Drafted s old d w) (hdepth : d.depth = 0)
    (hextra : d.containerContentsExtraSize 0 ≠ 0) (hpoints : d.expansionPoints ≠ [])
    (hroom : s + d.finishedSize ≤ w.dataEnd) {post : ℤ → DataWriter → Prop}
    (hloop : wp (expandLoop s d.expansionPoints.reverse (s + d.size) (d.containerContentsExtraSize 0))
      (fun result w' ↦ (result.2 = 0 ∧ s < result.1) ∧
        post (s + d.finishedSize) { w' with dataPtr := s + d.finishedSize }) (fun _ _ ↦ False) w) :
    wp (finishMessage s) post (fun _ _ ↦ False) w := by
  have hstart := h.start
  have hsize := finishedSize_eq d s
  have hshift : w.bufferStart + ((s - w.bufferStart).toNat : ℤ) = s := by omega
  have hend : w.dataPtr + (d.containerContentsExtraSize 0 : ℤ) = s + d.finishedSize := by
    rw [hsize, h.dataPtr]
  have hmapped : w.expansionPoints ≠ [] := by
    rw [h.points]
    exact fun hempty ↦ hpoints (List.map_eq_nil_iff.mp hempty)
  simp only [finishMessage, wp_bind, wp_get, h.depth, hdepth, h.extra 0 (Nat.zero_le _), ne_eq,
    not_true_eq_false, if_false, if_neg hextra, hend, if_neg (not_lt.mpr hroom), expandHeaders,
    if_neg hmapped, wp_modify, wp_pure]
  rw [h.points, ← List.map_reverse, expandLoop_shift, hshift, h.dataPtr]
  apply wp_mono hloop
  · intro result w' hw'
    have hdone : ¬ (¬ result.2 = 0 ∨ result.1 ≤ s) := by
      rintro (hoffset | hbehind)
      · exact hoffset hw'.1.1
      · exact absurd hbehind (not_le.mpr hw'.1.2)
    rw [if_neg hdone, wp_pure]
    exact hw'.2
  · exact fun _ _ hfalse ↦ hfalse

/-- Of two copies of a draft the finished bytes are the same exactly if the leftovers are. -/
theorem Drafted.finishMessage_sameBytes (h : Drafted s old d w) (h' : Drafted t other d v)
    (hsound : d.Sound) (hfinishable : d.Finishable)
    (hroom : d.containerContentsExtraSize 0 = 0 ∨ s + d.finishedSize ≤ w.dataEnd)
    (hroom' : d.containerContentsExtraSize 0 = 0 ∨ t + d.finishedSize ≤ v.dataEnd) :
    wp (finishMessage s)
      (fun messageEnd w' ↦ messageEnd = s + d.finishedSize ∧
        wp (finishMessage t)
          (fun messageEnd' v' ↦ messageEnd' = t + d.finishedSize ∧
            (slice w'.mem s messageEnd = slice v'.mem t messageEnd' ↔ d.Leftovers s t old other))
          (fun _ _ ↦ False) v)
      (fun _ _ ↦ False) w := by
  have hleftovers := h.sameBytes_iff h'
  by_cases hnone : d.containerContentsExtraSize 0 = 0
  · have hsize : d.finishedSize = d.size := by rw [Draft.finishedSize, hnone, Nat.add_zero]
    have hextra := h.extra 0 (Nat.zero_le _)
    have hextra' := h'.extra 0 (Nat.zero_le _)
    have hdepth := h.depth.trans hfinishable.1
    have hdepth' := h'.depth.trans hfinishable.1
    simp only [finishMessage, wp_bind, wp_get, hdepth, hdepth', hextra, hextra', hnone, ne_eq,
      not_true_eq_false, if_false, if_true, wp_pure, hsize, h.dataPtr, h'.dataPtr, true_and]
    rw [slice_eq_iff]
    exact hleftovers
  · have hexpandable := hfinishable.expandable hsound hnone
    have hpoints : d.expansionPoints ≠ [] := fun hempty ↦ hnone (hsound.no_extra hempty)
    have hplain : ∀ point ∈ d.expansionPoints.reverse, Plain point := by
      have hcounted := hsound.counted 0 (Nat.zero_le _)
      have hinserted := hexpandable.offset_eq
      rw [inserted_reverse, Int.natCast_inj] at hinserted
      rw [hinserted] at hcounted
      intro point hpoint
      have hmem := List.mem_reverse.mp hpoint
      exact plain_of_le (hsound.points point hmem).length (headerLength_le hcounted point hmem)
    have hheader : ∀ point ∈ d.expansionPoints.reverse,
        w.mem (s + (point.blockOffset - 1)) = v.mem (t + (point.blockOffset - 1)) := by
      intro point hpoint
      have hpoint := hsound.points point (List.mem_reverse.mp hpoint)
      have hpositive := hpoint.positive
      have hposition : (point.blockOffset : ℤ) - 1 = (point.blockOffset - 1 : ℕ) := by omega
      obtain ⟨byte, hbyte⟩ := Option.isSome_iff_exists.mp hpoint.header
      rw [hposition, h.mem, h'.mem, apply_at, apply_at, hbyte]
      rfl
    have hloop := expandLoop_sameBytes hplain hexpandable (le_refl _) hheader
    apply h.finishMessage_expands hfinishable.1 hnone hpoints (hroom.resolve_left hnone)
    apply wp_mono hloop
    · intro result w' hw'
      refine ⟨hw'.1, rfl, ?_⟩
      apply h'.finishMessage_expands hfinishable.1 hnone hpoints (hroom'.resolve_left hnone)
      apply wp_mono hw'.2
      · intro result' v' hv'
        refine ⟨hv'.1, rfl, ?_⟩
        rw [slice_eq_iff, ← hleftovers]
        refine Iff.trans ?_ (hv'.2.trans ?_)
        · constructor
          · intro hsame position hpositive hlt _
            obtain ⟨index, rfl⟩ := Int.eq_ofNat_of_zero_le hpositive
            exact hsame index (by rw [Draft.finishedSize]; omega)
          · intro hsame index hindex
            exact hsame index (by omega) (by rw [Draft.finishedSize] at hindex; omega) (by omega)
        · constructor
          · intro hsame index hindex
            exact hsame index (by omega) (by omega) (by omega)
          · intro hsame position hpositive hlt houtside
            obtain ⟨index, rfl⟩ := Int.eq_ofNat_of_zero_le hpositive
            exact hsame index (by omega)
      · exact fun _ _ hfalse ↦ hfalse
    · exact fun _ _ hfalse ↦ hfalse

end DxApi.Loader
