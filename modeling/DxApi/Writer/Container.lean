import DxApi.Writer.DataWriter

/-!
# Nested containers

A message body is a sequence of leaf values, arrays and objects. `Body.encode` is the recursive
encoding that a reader expects, in which every container is its content length and its content.
`writeMessage` is the sequence of writer calls that a client makes for the body, and the theorem at
the end says for which bodies the two agree.

The writer leaves one byte for each length while the body is written and moves the data apart
afterwards. `Body.raw` is what the first pass leaves and `Body.points` where it asks for more bytes.
-/

namespace DxApi.Writer

open Exec ByteMemory ByteOrder

/-! ## Bodies and their encoding -/

/-- What kind of container is opened, with the argument of the call. -/
inductive Kind
  | array (nItems : ℕ)
  | object (typeIndex : UInt8)

/-- What is written between `startMessage` and `finishMessage`. A leaf is a store of `data` and
`beyond`, of which the first part counts; `next` is what is written afterwards at the same level. -/
inductive Body
  | done
  | leaf (data beyond : List UInt8) (next : Body)
  | container (kind : Kind) (content next : Body)

/-- A value below `2 ^ 22` in one, two or three bytes: the two upper bits of the first byte say how
many there are, its six lower bits are the lowest of the value. -/
def packedUInt22 (value : ℕ) : List UInt8 :=
  if value < 0x80 then
    [UInt8.ofNat value]
  else if value < 0x4000 then
    [UInt8.ofNat (0x80 + value % 0x40), UInt8.ofNat (value / 0x40)]
  else
    [UInt8.ofNat (0xC0 + value % 0x40), UInt8.ofNat (value / 0x40), UInt8.ofNat (value / 0x4000)]

/-- The bytes that `writePackedUInt22` leaves, for any 32-bit value. -/
def packedCount (value : ℕ) : List UInt8 :=
  if value < 0x80 then
    [UInt8.ofNat value]
  else
    let numBytes := (Nat.size (value / 0x40) + 7) / 8
    UInt8.ofNat (value % 0x40 + 0x40 + numBytes * 0x40) :: littleEndian numBytes (value / 0x40)

namespace Kind

def isArray : Kind → Bool
  | array _ => true
  | object _ => false

/-- The part of the content that the opening call writes. -/
def head : Kind → List UInt8
  | array nItems => packedCount (nItems % 2 ^ 32)
  | object typeIndex => [typeIndex]

/-- `writeArrayStart` or `writeObjectStart`. -/
def start : Kind → WriterM Unit
  | array nItems => writeArrayStart nItems
  | object typeIndex => writeObjectStart typeIndex

/-- `writeArrayEnd` or `writeObjectEnd`. -/
def finish : Kind → WriterM Unit
  | array _ => writeArrayEnd
  | object _ => writeObjectEnd

theorem finish_eq (kind : Kind) : kind.finish = closeContainer kind.isArray := by
  cases kind <;> rfl

end Kind

namespace Body

/-- The reference encoding. -/
def encode : Body → List UInt8
  | done => []
  | leaf data _ next => data ++ next.encode
  | container kind content next =>
    packedUInt22 (kind.head ++ content.encode).length ++ (kind.head ++ content.encode) ++ next.encode

/-- The length of the content of a container in the reference encoding. -/
def contentLength (kind : Kind) (content : Body) : ℕ := (kind.head ++ content.encode).length

/-- How deep containers are nested. -/
def nesting : Body → ℕ
  | done => 0
  | leaf _ _ next => next.nesting
  | container _ content next => max (content.nesting + 1) next.nesting

/-- Every content is shorter than `2 ^ 22` bytes. -/
def Short : Body → Prop
  | done => True
  | leaf _ _ next => next.Short
  | container kind content next =>
    contentLength kind content < 2 ^ 22 ∧ content.Short ∧ next.Short

/-- Every container, at any depth, has a content of fewer than 128 bytes. -/
def Small : Body → Prop
  | done => True
  | leaf _ _ next => next.Small
  | container kind content next =>
    contentLength kind content < 0x80 ∧ content.Small ∧ next.Small

/-- A container with a content of 128 bytes or more lies inside no other container. -/
def Flat : Body → Prop
  | done => True
  | leaf _ _ next => next.Flat
  | container _ content next => content.Small ∧ next.Flat

/-- The first byte is the first of a length of two or three bytes. -/
def StartsLong : Body → Prop
  | done => False
  | leaf data _ next => data = [] ∧ next.StartsLong
  | container kind content _ => 0x80 ≤ contentLength kind content

end Body

/-- The calls that write a body. -/
def writeBody : Body → WriterM Unit
  | .done => pure ()
  | .leaf data beyond next => do
    putBE (data ++ beyond) data.length
    writeBody next
  | .container kind content next => do
    kind.start
    writeBody content
    kind.finish
    writeBody next

/-- The calls that write a message. -/
def writeMessage (body : Body) : WriterM ℤ := do
  let messageStart ← startMessage
  writeBody body
  finishMessage messageStart

/-- The message is finished, and its bytes are the reference encoding. -/
def Encodes (body : Body) (w : DataWriter) : Prop :=
  wp (writeMessage body)
    (fun messageEnd w' ↦ messageEnd = w.dataPtr + 4 + body.encode.length ∧
      slice w'.mem (w.dataPtr + 4) messageEnd = body.encode)
    (fun _ _ ↦ False) w

/-! ## What the first pass leaves -/

/-- How many bytes a length takes beyond the reserved one. -/
def extraBytes (length : ℕ) : ℕ := if length < 0x80 then 0 else extraHeaderBytes length

namespace Body

/-- The number of bytes written in the first pass. -/
def rawLength : Body → ℕ
  | done => 0
  | leaf data _ next => data.length + next.rawLength
  | container kind content next =>
    1 + (kind.head.length + content.rawLength) + next.rawLength

/-- The bytes to be inserted that `closeContainer` passes on to the level of the body. -/
def extraTop : Body → ℕ
  | done => 0
  | leaf _ _ next => next.extraTop
  | container kind content next =>
    extraBytes (kind.head.length + content.rawLength + content.extraTop) + next.extraTop

/-- The length that `closeContainer` computes: the bytes to be inserted deeper inside than the
containers of the content itself are missing. -/
def closedLength (kind : Kind) (content : Body) : ℕ :=
  kind.head.length + content.rawLength + content.extraTop

/-- The bytes written in the first pass. -/
def raw : Body → List UInt8
  | done => []
  | leaf data _ next => data ++ next.raw
  | container kind content next =>
    UInt8.ofNat (closedLength kind content) :: (kind.head ++ content.raw) ++ next.raw

/-- The expansion points of a body written at an offset into the buffer, in the order in which the
containers are closed. -/
def points : Body → ℕ → List ExpansionPoint
  | done, _ => []
  | leaf data _ next, offset => next.points (offset + data.length)
  | container kind content next, offset =>
    let length := closedLength kind content
    content.points (offset + 1 + kind.head.length) ++
      (if 0x80 ≤ length then [⟨offset + 1, packedLength length⟩] else []) ++
      next.points (offset + 1 + (kind.head.length + content.rawLength))

/-- The bytes to be inserted at all the expansion points. -/
def extraAll : Body → ℕ
  | done => 0
  | leaf _ _ next => next.extraAll
  | container kind content next =>
    content.extraAll + extraBytes (closedLength kind content) + next.extraAll

end Body

namespace Body

/-- How many bytes stand before the first long container, or the length of a body without one. -/
def lead : Body → ℕ
  | done => 0
  | leaf data _ next => data.length + next.lead
  | container kind content next =>
    if 0x80 ≤ contentLength kind content then 0
    else 1 + contentLength kind content + next.lead

end Body

/-! ### Sizes -/

theorem length_packedUInt22 (value : ℕ) : (packedUInt22 value).length = 1 + extraBytes value := by
  unfold packedUInt22 extraBytes extraHeaderBytes
  by_cases hsmall : value < 0x80
  · simp [hsmall]
  · by_cases hmiddle : value < 0x4000
    · simp [hsmall, hmiddle, if_neg (by omega : ¬ 0x4000 ≤ value)]
    · simp [hsmall, hmiddle, if_pos (by omega : 0x4000 ≤ value)]

theorem extraBytes_mono {length longer : ℕ} (h : length ≤ longer) :
    extraBytes length ≤ extraBytes longer := by
  unfold extraBytes extraHeaderBytes
  split_ifs <;> omega

theorem extraBytes_le (length : ℕ) : extraBytes length ≤ 2 := by
  unfold extraBytes extraHeaderBytes
  split_ifs <;> omega

theorem extraBytes_of_lt {length : ℕ} (h : length < 0x80) : extraBytes length = 0 :=
  if_pos h

theorem extraBytes_of_ge {length : ℕ} (h : 0x80 ≤ length) :
    extraBytes length = extraHeaderBytes length :=
  if_neg (by omega)

theorem extraHeaderBytes_pos (length : ℕ) : 0 < extraHeaderBytes length := by
  unfold extraHeaderBytes
  split_ifs <;> omega

/-- The top byte of an expansion point is the number of bytes to be inserted. -/
theorem packedLength_div {length : ℕ} (h : length < 2 ^ 22) :
    packedLength length / 2 ^ 24 = extraHeaderBytes length := by
  have hlow : length % 0x40 + length / 0x40 * 0x40 * 4 + 192 < 2 ^ 24 := by omega
  unfold packedLength extraHeaderBytes
  split_ifs
  · rw [Nat.mod_eq_of_lt (by omega)]
    omega
  · rw [Nat.mod_eq_of_lt (by omega)]
    omega

namespace Body

@[simp]
theorem length_raw (body : Body) : body.raw.length = body.rawLength := by
  induction body with
  | done => rfl
  | leaf data beyond next ih => simp [raw, rawLength, ih]
  | container kind content next ihContent ihNext =>
    simp [raw, rawLength, ihContent, ihNext]
    omega

theorem extraTop_container (kind : Kind) (content next : Body) :
    (container kind content next).extraTop =
      extraBytes (closedLength kind content) + next.extraTop := rfl

theorem contentLength_eq (kind : Kind) (content : Body) :
    contentLength kind content = kind.head.length + content.encode.length := by
  simp [contentLength]

theorem length_encode_container (kind : Kind) (content next : Body) :
    (container kind content next).encode.length =
      1 + extraBytes (contentLength kind content) + contentLength kind content +
        next.encode.length := by
  simp only [encode, List.length_append, length_packedUInt22, contentLength]

/-- The lengths computed on closing never exceed the ones of the reference encoding. -/
theorem rawLength_add_extraTop_le (body : Body) :
    body.rawLength + body.extraTop ≤ body.encode.length := by
  induction body with
  | done => exact le_rfl
  | leaf data beyond next ih =>
    simp only [rawLength, extraTop, encode, List.length_append]
    omega
  | container kind content next ihContent ihNext =>
    have hclosed : closedLength kind content ≤ contentLength kind content := by
      rw [contentLength_eq, closedLength]
      omega
    have hextra := extraBytes_mono hclosed
    rw [length_encode_container, extraTop_container, rawLength]
    rw [contentLength_eq] at hextra ⊢
    omega

theorem closedLength_le (kind : Kind) (content : Body) :
    closedLength kind content ≤ contentLength kind content := by
  have hcontent := content.rawLength_add_extraTop_le
  rw [contentLength_eq, closedLength]
  omega

theorem extraTop_le (body : Body) : body.extraTop ≤ 2 * body.rawLength := by
  induction body with
  | done => exact le_rfl
  | leaf data beyond next ih =>
    rw [extraTop, rawLength]
    omega
  | container kind content next ihContent ihNext =>
    have hextra := extraBytes_le (closedLength kind content)
    rw [extraTop_container, rawLength]
    omega

theorem extraTop_le_extraAll (body : Body) : body.extraTop ≤ body.extraAll := by
  induction body with
  | done => exact le_rfl
  | leaf data beyond next ih => exact ih
  | container kind content next ihContent ihNext =>
    rw [extraTop_container, extraAll]
    omega

/-! ### Small and flat bodies -/

theorem Small.raw_eq {body : Body} (h : body.Small) :
    body.raw = body.encode ∧ body.extraTop = 0 := by
  induction body with
  | done => exact ⟨rfl, rfl⟩
  | leaf data beyond next ih =>
    obtain ⟨hraw, hextra⟩ := ih h
    exact ⟨by rw [raw, encode, hraw], hextra⟩
  | container kind content next ihContent ihNext =>
    obtain ⟨hlength, hcontent, hnext⟩ := h
    obtain ⟨hraw, hextra⟩ := ihContent hcontent
    obtain ⟨hrawNext, hextraNext⟩ := ihNext hnext
    have hclosed : closedLength kind content = contentLength kind content := by
      rw [closedLength, contentLength_eq, ← length_raw, hraw, hextra, Nat.add_zero]
    constructor
    · rw [raw, encode, hclosed, hraw, hrawNext, packedUInt22, if_pos (by exact hlength)]
      rfl
    · rw [extraTop_container, hclosed, extraBytes_of_lt hlength, hextraNext]

theorem Small.closedLength_eq {content : Body} (h : content.Small) (kind : Kind) :
    closedLength kind content = contentLength kind content := by
  obtain ⟨hraw, hextra⟩ := h.raw_eq
  rw [closedLength, contentLength_eq, ← length_raw, hraw, hextra, Nat.add_zero]

/-- The head and the content as the first pass leaves them. -/
theorem Small.rawLength_add_head {content : Body} (h : content.Small) (kind : Kind) :
    kind.head.length + content.rawLength = contentLength kind content := by
  rw [contentLength_eq, ← h.raw_eq.1, length_raw]

theorem Small.points_eq {body : Body} (h : body.Small) (offset : ℕ) :
    body.points offset = [] := by
  induction body generalizing offset with
  | done => rfl
  | leaf data beyond next ih => exact ih h _
  | container kind content next ihContent ihNext =>
    obtain ⟨hlength, hcontent, hnext⟩ := h
    have hclosed := hcontent.closedLength_eq kind
    simp only [points, ihContent hcontent, ihNext hnext, hclosed, if_neg (by omega : ¬ 0x80 ≤ contentLength kind content),
      List.append_nil]

/-- A long container is long already in the first pass, and asks for bytes. -/
theorem rawLength_of_not_small {body : Body} (h : ¬ body.Small) :
    0x80 < body.rawLength ∧ 0 < body.extraAll := by
  induction body with
  | done => exact absurd trivial h
  | leaf data beyond next ih =>
    obtain ⟨hlength, hextra⟩ := ih h
    exact ⟨by rw [rawLength]; omega, hextra⟩
  | container kind content next ihContent ihNext =>
    by_cases hcontent : content.Small
    · by_cases hlength : contentLength kind content < 0x80
      · have hnext : ¬ next.Small := fun hnext ↦ h ⟨hlength, hcontent, hnext⟩
        obtain ⟨hlong, hextra⟩ := ihNext hnext
        exact ⟨by rw [rawLength]; omega, by rw [extraAll]; omega⟩
      · have hclosed := hcontent.closedLength_eq kind
        have hpos := extraHeaderBytes_pos (closedLength kind content)
        have hnone := hcontent.raw_eq.2
        rw [← extraBytes_of_ge (by omega : 0x80 ≤ closedLength kind content)] at hpos
        refine ⟨?_, by rw [extraAll]; omega⟩
        rw [rawLength]
        rw [closedLength] at hclosed
        omega
    · obtain ⟨hlong, hextra⟩ := ihContent hcontent
      exact ⟨by rw [rawLength]; omega, by rw [extraAll]; omega⟩

/-- Of a body that is not flat some bytes to be inserted are passed on, but not all. -/
theorem extraTop_lt_of_not_flat {body : Body} (h : ¬ body.Flat) :
    0 < body.extraTop ∧ body.extraTop < body.extraAll := by
  induction body with
  | done => exact absurd trivial h
  | leaf data beyond next ih => exact ih h
  | container kind content next ihContent ihNext =>
    rw [extraTop_container, extraAll]
    have hle := next.extraTop_le_extraAll
    by_cases hcontent : content.Small
    · have hnext : ¬ next.Flat := fun hnext ↦ h ⟨hcontent, hnext⟩
      obtain ⟨hpos, hlt⟩ := ihNext hnext
      omega
    · obtain ⟨hlong, hextra⟩ := rawLength_of_not_small hcontent
      have hclosed : 0x80 ≤ closedLength kind content := by
        rw [closedLength]
        omega
      have hpos := extraHeaderBytes_pos (closedLength kind content)
      rw [← extraBytes_of_ge hclosed] at hpos
      omega

end Body

/-! ## The first pass -/

/-- The buffer has room for `size` more bytes, and an offset into it fits in 32 bits. -/
structure HasRoom (size : ℕ) (w : DataWriter) : Prop where
  start : w.bufferStart ≤ w.dataPtr
  room : w.dataPtr + size ≤ w.dataEnd
  bounded : w.dataEnd - w.bufferStart < 2 ^ 32

/-- The only change is that `data` was written. -/
structure Appended (data : List UInt8) (w w' : DataWriter) : Prop where
  dataPtr : w'.dataPtr = w.dataPtr + data.length
  data : slice w'.mem w.dataPtr w'.dataPtr = data
  before : ∀ address < w.dataPtr, w'.mem address = w.mem address
  rest : w' = { w with mem := w'.mem, dataPtr := w'.dataPtr }

/-- The state after `openContainer`. -/
def opened (kind : Kind) (w : DataWriter) : DataWriter :=
  { w with
    mem := store w.mem w.dataPtr [0]
    dataPtr := w.dataPtr + 1
    depth := w.depth + 1
    containerContentsExtraSize := Function.update w.containerContentsExtraSize (w.depth + 1) 0
    containerHeader := Function.update w.containerHeader w.depth w.dataPtr
    containerIsArray := Function.update w.containerIsArray w.depth kind.isArray }

/-- The state after `closeContainer` at a nesting depth of `depth + 1`, where the container starts
at `header` and its content has `length` bytes. -/
def closed (depth : ℕ) (header : ℤ) (length : ℕ) (w : DataWriter) : DataWriter :=
  { w with
    mem := store w.mem header [UInt8.ofNat length]
    depth := depth
    containerContentsExtraSize := Function.update w.containerContentsExtraSize depth
      (w.containerContentsExtraSize depth + extraBytes length)
    expansionPoints := w.expansionPoints ++
      (if 0x80 ≤ length then [⟨(header + 1 - w.bufferStart).toNat, packedLength length⟩] else []) }

/-- The first byte is overwritten afterwards. -/
theorem Appended.patch {byte : UInt8} {data : List UInt8} {w w' : DataWriter}
    (h : Appended (byte :: data) w w') (header : UInt8) :
    Appended (header :: data) w { w' with mem := store w'.mem w.dataPtr [header] } := by
  have hptr : w'.dataPtr = w.dataPtr + (data.length + 1 : ℕ) := h.dataPtr
  refine ⟨hptr, ?_, ?_, ?_⟩
  · have hhead : slice (store w'.mem w.dataPtr [header]) w.dataPtr (w.dataPtr + 1) = [header] :=
      slice_store w'.mem w.dataPtr [header]
    have hafter : slice (store w'.mem w.dataPtr [header]) (w.dataPtr + 1) w'.dataPtr =
        slice w'.mem (w.dataPtr + 1) w'.dataPtr :=
      slice_store_after (by simp)
    have hdata := h.data
    rw [slice_append w'.mem (w.dataPtr + 1) (by omega) (by omega)] at hdata
    have htail : slice w'.mem (w.dataPtr + 1) w'.dataPtr = data :=
      (List.append_inj (show _ = [byte] ++ data from hdata) (by simp)).2
    change slice (store w'.mem w.dataPtr [header]) w.dataPtr w'.dataPtr = _
    rw [slice_append _ (w.dataPtr + 1) (by omega) (by omega), hhead, hafter, htail]
    rfl
  · intro address hlt
    change store w'.mem w.dataPtr [header] address = _
    rw [store_of_lt hlt, h.before address hlt]
  · rw [h.rest]

theorem putBE_spec (data beyond : List UInt8) {w : DataWriter}
    (hroom : w.dataPtr + data.length ≤ w.dataEnd) :
    wp (putBE (data ++ beyond) data.length) (fun _ w' ↦ Appended data w w')
      (fun _ _ ↦ False) w := by
  simp only [putBE, wp_bind, wp_get, wp_set, wp_ite, wp_pure]
  refine ⟨fun hover ↦ absurd hroom (by omega), fun _ ↦ ?_⟩
  exact ⟨rfl, slice_store_append w.mem w.dataPtr data beyond,
    fun address hlt ↦ store_of_lt hlt, rfl⟩

theorem putByte_spec (value : UInt8) {w : DataWriter} (hroom : w.dataPtr + 1 ≤ w.dataEnd) :
    wp (putByte value) (fun _ w' ↦ Appended [value] w w') (fun _ _ ↦ False) w :=
  putBE_spec [value] [] hroom

/-- The number of bytes above the lowest six bits of a 32-bit value. -/
theorem numBytes_le {value : ℕ} (h : value < 2 ^ 32) : (Nat.size (value / 0x40) + 7) / 8 ≤ 4 := by
  have hsize : Nat.size (value / 0x40) ≤ 26 := Nat.size_le.mpr (by omega)
  omega

theorem writePackedUInt22_spec {value : ℕ} (hvalue : value < 2 ^ 32) {w : DataWriter}
    (hroom : w.dataPtr + (packedCount value).length ≤ w.dataEnd) :
    wp (writePackedUInt22 value) (fun _ w' ↦ Appended (packedCount value) w w')
      (fun _ _ ↦ False) w := by
  unfold writePackedUInt22 packedCount at *
  by_cases hsmall : value < 0x80
  · rw [if_pos hsmall] at hroom ⊢
    rw [if_pos hsmall]
    exact putByte_spec _ hroom
  · rw [if_neg hsmall] at hroom ⊢
    rw [if_neg hsmall]
    have hle := numBytes_le hvalue
    generalize (Nat.size (value / 0x40) + 7) / 8 = numBytes at hle hroom ⊢
    obtain ⟨more, hmore⟩ := Nat.exists_eq_add_of_le hle
    rw [hmore, littleEndian_add]
    generalize littleEndian more (value / 0x40 / 256 ^ numBytes) = beyond
    simp only [List.length_cons, length_littleEndian] at hroom
    have hstored := putBE_spec (0 :: littleEndian numBytes (value / 0x40)) beyond (w := w)
      (by simpa using hroom)
    simp only [List.cons_append, List.length_cons, length_littleEndian] at hstored
    refine wp_bind.mpr (wp_get.mpr (wp_bind.mpr (wp_mono hstored ?_ fun _ _ hfail ↦ hfail)))
    rintro - w' hw'
    rw [wp_modify]
    exact hw'.patch _

theorem openContainer_spec (kind : Kind) {w : DataWriter} (hdepth : w.depth < 16)
    (hroom : w.dataPtr + 1 ≤ w.dataEnd) :
    wp (openContainer kind.isArray) (fun _ w' ↦ w' = opened kind w) (fun _ _ ↦ False) w := by
  have hmax : ¬ loaderMaxNestedObjects ≤ w.depth := by
    unfold loaderMaxNestedObjects
    omega
  have hfits : ¬ w.dataEnd < w.dataPtr + 1 := by omega
  simp only [openContainer, reserveLengthField, putByte, putBE, wp_bind, wp_get, wp_set, wp_ite,
    wp_pure, hmax, false_implies, not_false_eq_true, true_implies, true_and, Nat.cast_one, hfits]
  rfl

/-- The call that opens a container and writes the first part of its content. -/
theorem start_spec {kind : Kind} {w : DataWriter} (hdepth : w.depth < 16)
    (hroom : w.dataPtr + (1 + kind.head.length : ℕ) ≤ w.dataEnd) :
    wp kind.start (fun _ w' ↦ Appended kind.head (opened kind w) w') (fun _ _ ↦ False) w := by
  push_cast at hroom
  have hopen := openContainer_spec kind hdepth (by omega)
  have hfits : (opened kind w).dataPtr + kind.head.length ≤ (opened kind w).dataEnd := by
    change w.dataPtr + 1 + _ ≤ w.dataEnd
    omega
  cases kind with
  | array nItems =>
    refine wp_bind.mpr (wp_mono hopen ?_ fun _ _ hfail ↦ hfail)
    rintro - w' rfl
    exact writePackedUInt22_spec (Nat.mod_lt _ (by omega)) hfits
  | object typeIndex =>
    refine wp_bind.mpr (wp_mono hopen ?_ fun _ _ hfail ↦ hfail)
    rintro - w' rfl
    exact putByte_spec typeIndex hfits

/-- The call that closes a container with a content of `size` bytes so far, `extra` more of which
are to be inserted. -/
theorem closeContainer_spec {isArray : Bool} {depth size extra : ℕ} {header : ℤ} {w : DataWriter}
    (hdepth : w.depth = depth + 1) (hheader : w.containerHeader depth = header)
    (harray : w.containerIsArray depth = isArray) (hsize : w.dataPtr = header + 1 + size)
    (hextra : w.containerContentsExtraSize (depth + 1) = extra) (hbound : size + extra < 2 ^ 64)
    (hstart : w.bufferStart ≤ header) (hend : header + 1 - w.bufferStart < 2 ^ 32) :
    wp (closeContainer isArray) (fun _ w' ↦ w' = closed depth header (size + extra) w)
      (fun _ _ ↦ False) w := by
  have hlength : ((w.dataPtr - (header + 1) + (extra : ℤ)) % 2 ^ 64).toNat = size + extra := by
    rw [hsize]
    omega
  have hoffset : ((header + 1 - w.bufferStart) % 2 ^ 32).toNat = (header + 1 - w.bufferStart).toNat := by
    omega
  have hcontent : header + 1 - 1 = header := by omega
  simp only [closeContainer, wp_bind, wp_get, hdepth, wp_set, wp_ite, wp_modify, wp_pure, wp_throw,
    harray, hheader, hextra, hlength, hoffset, hcontent, ne_eq, not_true_eq_false, false_implies,
    not_false_eq_true, true_implies, true_and]
  constructor
  · intro hlong
    simp only [closed, if_pos hlong, extraBytes_of_ge hlong]
  · intro hshort
    simp only [closed, if_neg hshort, extraBytes_of_lt (by omega : size + extra < 0x80), Nat.add_zero,
      Function.update_eq_self, List.append_nil]

/-- What writing a body at some nesting depth does. -/
structure BodyWritten (body : Body) (w w' : DataWriter) : Prop where
  dataPtr : w'.dataPtr = w.dataPtr + body.rawLength
  data : slice w'.mem w.dataPtr w'.dataPtr = body.raw
  before : ∀ address < w.dataPtr, w'.mem address = w.mem address
  dataEnd : w'.dataEnd = w.dataEnd
  bufferStart : w'.bufferStart = w.bufferStart
  depth : w'.depth = w.depth
  header : ∀ level < w.depth, w'.containerHeader level = w.containerHeader level
  isArray : ∀ level < w.depth, w'.containerIsArray level = w.containerIsArray level
  outside : ∀ level < w.depth,
    w'.containerContentsExtraSize level = w.containerContentsExtraSize level
  extra : w'.containerContentsExtraSize w.depth =
    w.containerContentsExtraSize w.depth + body.extraTop
  points : w'.expansionPoints =
    w.expansionPoints ++ body.points (w.dataPtr - w.bufferStart).toNat

theorem BodyWritten.done (w : DataWriter) : BodyWritten .done w w where
  dataPtr := (Int.add_zero _).symm
  data := slice_self _ _
  before _ _ := rfl
  dataEnd := rfl
  bufferStart := rfl
  depth := rfl
  header _ _ := rfl
  isArray _ _ := rfl
  outside _ _ := rfl
  extra := rfl
  points := (List.append_nil _).symm

theorem BodyWritten.leaf {data beyond : List UInt8} {next : Body} {w middle w' : DataWriter}
    (hstart : w.bufferStart ≤ w.dataPtr) (hdata : Appended data w middle)
    (hnext : BodyWritten next middle w') : BodyWritten (.leaf data beyond next) w w' := by
  have hptr := hdata.dataPtr
  have hptr' := hnext.dataPtr
  have hrest := hdata.rest
  have hdepth : middle.depth = w.depth := by rw [hrest]
  have hoffset : (w.dataPtr - w.bufferStart).toNat + data.length =
      (middle.dataPtr - middle.bufferStart).toNat := by
    have hbase : middle.bufferStart = w.bufferStart := by rw [hrest]
    rw [hbase]
    omega
  refine ⟨?_, ?_, ?_, ?_, ?_, ?_, ?_, ?_, ?_, ?_, ?_⟩
  · rw [hptr', hptr, Body.rawLength]
    push_cast
    ring
  · rw [slice_append _ middle.dataPtr (by omega) (by omega), hnext.data,
      slice_congr fun address _ hlt ↦ hnext.before address hlt, hdata.data, Body.raw]
  · intro address hlt
    rw [hnext.before address (by omega), hdata.before address hlt]
  · rw [hnext.dataEnd, hrest]
  · rw [hnext.bufferStart, hrest]
  · rw [hnext.depth, hrest]
  · intro level hlevel
    rw [hnext.header level (by omega), hrest]
  · intro level hlevel
    rw [hnext.isArray level (by omega), hrest]
  · intro level hlevel
    rw [hnext.outside level (by omega), hrest]
  · have hextra := hnext.extra
    rw [hdepth] at hextra
    rw [hextra, hrest, Body.extraTop]
  · rw [hnext.points, ← hoffset, hrest]
    rfl

/-- Opened, filled and closed: what a container leaves, and then what follows it. -/
theorem BodyWritten.container {kind : Kind} {content next : Body} {w first second third w' : DataWriter}
    (hstart : w.bufferStart ≤ w.dataPtr) (hfirst : Appended kind.head (opened kind w) first)
    (hsecond : BodyWritten content first second)
    (hthird : third = closed w.depth w.dataPtr (Body.closedLength kind content) second)
    (hnext : BodyWritten next third w') : BodyWritten (.container kind content next) w w' := by
  have hrest := hfirst.rest
  have hptr : first.dataPtr = w.dataPtr + 1 + kind.head.length := hfirst.dataPtr
  have hptrSecond := hsecond.dataPtr
  have hptrThird : third.dataPtr = second.dataPtr := by rw [hthird]; rfl
  have hptr' := hnext.dataPtr
  have hdepth : first.depth = w.depth + 1 := by rw [hrest]; rfl
  have hdepthThird : third.depth = w.depth := by rw [hthird]; rfl
  have hbase : first.bufferStart = w.bufferStart := by rw [hrest]; rfl
  have hbaseSecond : second.bufferStart = w.bufferStart := by rw [hsecond.bufferStart, hbase]
  have hbaseThird : third.bufferStart = w.bufferStart := by rw [hthird]; exact hbaseSecond
  have hmem : third.mem =
      store second.mem w.dataPtr [UInt8.ofNat (Body.closedLength kind content)] := by rw [hthird]; rfl
  refine ⟨?_, ?_, ?_, ?_, ?_, ?_, ?_, ?_, ?_, ?_, ?_⟩
  · rw [hptr', hptrThird, hptrSecond, hptr, Body.rawLength]
    push_cast
    ring
  · have hheader : slice third.mem w.dataPtr (w.dataPtr + 1) =
        [UInt8.ofNat (Body.closedLength kind content)] := by
      rw [hmem]
      exact slice_store _ _ _
    have hcontent : slice third.mem (w.dataPtr + 1) third.dataPtr = kind.head ++ content.raw := by
      rw [hmem, slice_store_after (by simp), slice_append _ first.dataPtr (by omega) (by omega),
        hptrThird, hsecond.data, slice_congr fun address _ hlt ↦ hsecond.before address hlt]
      congr 1
      exact hfirst.data
    rw [slice_append _ third.dataPtr (by omega) (by omega), hnext.data,
      slice_congr fun address _ hlt ↦ hnext.before address hlt,
      slice_append _ (w.dataPtr + 1) (by omega) (by omega), hheader, hcontent, Body.raw]
    rfl
  · intro address hlt
    rw [hnext.before address (by omega), hmem, store_of_lt hlt,
      hsecond.before address (by omega), hfirst.before address (by exact lt_trans hlt (by simp [opened]))]
    exact store_of_lt hlt
  · rw [hnext.dataEnd, hthird]
    change second.dataEnd = _
    rw [hsecond.dataEnd, hrest]
    rfl
  · rw [hnext.bufferStart, hbaseThird]
  · rw [hnext.depth, hdepthThird]
  · intro level hlevel
    rw [hnext.header level (by omega), hthird]
    change second.containerHeader level = _
    rw [hsecond.header level (by omega), hrest]
    exact Function.update_of_ne (by omega) _ _
  · intro level hlevel
    rw [hnext.isArray level (by omega), hthird]
    change second.containerIsArray level = _
    rw [hsecond.isArray level (by omega), hrest]
    exact Function.update_of_ne (by omega) _ _
  · intro level hlevel
    rw [hnext.outside level (by omega), hthird]
    change Function.update _ _ _ level = _
    rw [Function.update_of_ne (by omega), hsecond.outside level (by omega), hrest]
    exact Function.update_of_ne (by omega) _ _
  · have hextra := hnext.extra
    have hbefore : second.containerContentsExtraSize w.depth = w.containerContentsExtraSize w.depth := by
      rw [hsecond.outside w.depth (by omega), hrest]
      exact Function.update_of_ne (by omega) _ _
    have hclosed : third.containerContentsExtraSize w.depth =
        w.containerContentsExtraSize w.depth + extraBytes (Body.closedLength kind content) := by
      rw [hthird, ← hbefore]
      exact Function.update_self _ _ _
    rw [hdepthThird, hclosed] at hextra
    rw [hextra, Body.extraTop_container, Nat.add_assoc]
  · have hpoints : second.expansionPoints = w.expansionPoints ++
        content.points ((w.dataPtr - w.bufferStart).toNat + 1 + kind.head.length) := by
      have hoffset : (first.dataPtr - first.bufferStart).toNat =
          (w.dataPtr - w.bufferStart).toNat + 1 + kind.head.length := by
        rw [hbase, hptr]
        omega
      have hkept : first.expansionPoints = w.expansionPoints := by rw [hrest]; rfl
      rw [hsecond.points, hoffset, hkept]
    have hown : (w.dataPtr + 1 - second.bufferStart).toNat = (w.dataPtr - w.bufferStart).toNat + 1 := by
      rw [hbaseSecond]
      omega
    have hoffset : (third.dataPtr - third.bufferStart).toNat =
        (w.dataPtr - w.bufferStart).toNat + 1 + (kind.head.length + content.rawLength) := by
      rw [hbaseThird, hptrThird, hptrSecond, hptr]
      omega
    rw [hnext.points, hoffset, hthird]
    simp only [closed, hpoints, hown, Body.points, List.append_assoc]

/-- The first pass over a body. -/
theorem writeBody_spec (body : Body) {w : DataWriter} (hroom : HasRoom body.rawLength w)
    (hdepth : w.depth + body.nesting ≤ 16) :
    wp (writeBody body) (fun _ w' ↦ BodyWritten body w w') (fun _ _ ↦ False) w := by
  induction body generalizing w with
  | done => exact BodyWritten.done w
  | leaf data beyond next ih =>
    obtain ⟨hstart, hend, hbounded⟩ := hroom
    rw [Body.rawLength] at hend
    refine wp_bind.mpr (wp_mono (putBE_spec data beyond (by omega)) ?_ fun _ _ hfail ↦ hfail)
    rintro - middle hmiddle
    have hptr := hmiddle.dataPtr
    have hrest := hmiddle.rest
    have hbase : middle.bufferStart = w.bufferStart := by rw [hrest]
    have hlimit : middle.dataEnd = w.dataEnd := by rw [hrest]
    have hlevel : middle.depth = w.depth := by rw [hrest]
    have hroom : HasRoom next.rawLength middle := ⟨by omega, by omega, by omega⟩
    refine wp_mono (ih hroom (by rw [hlevel]; exact hdepth)) ?_ fun _ _ hfail ↦ hfail
    rintro - w' hw'
    exact BodyWritten.leaf hstart hmiddle hw'
  | container kind content next ihContent ihNext =>
    obtain ⟨hstart, hend, hbounded⟩ := hroom
    rw [Body.rawLength] at hend
    rw [Body.nesting] at hdepth
    refine wp_bind.mpr (wp_mono (start_spec (by omega) (by omega)) ?_ fun _ _ hfail ↦ hfail)
    rintro - first hfirst
    have hrest := hfirst.rest
    have hptr : first.dataPtr = w.dataPtr + 1 + kind.head.length := hfirst.dataPtr
    have hbase : first.bufferStart = w.bufferStart := by rw [hrest]; rfl
    have hlimit : first.dataEnd = w.dataEnd := by rw [hrest]; rfl
    have hlevel : first.depth = w.depth + 1 := by rw [hrest]; rfl
    have hroomContent : HasRoom content.rawLength first := ⟨by omega, by omega, by omega⟩
    refine wp_bind.mpr (wp_mono (ihContent hroomContent (by omega)) ?_ fun _ _ hfail ↦ hfail)
    rintro - second hsecond
    have hptrSecond := hsecond.dataPtr
    have hbaseSecond := hsecond.bufferStart
    have hlimitSecond := hsecond.dataEnd
    have hlevelSecond := hsecond.depth
    have hheader : second.containerHeader w.depth = w.dataPtr := by
      rw [hsecond.header w.depth (by omega), hrest]
      exact Function.update_self _ _ _
    have harray : second.containerIsArray w.depth = kind.isArray := by
      rw [hsecond.isArray w.depth (by omega), hrest]
      exact Function.update_self _ _ _
    have hextra : second.containerContentsExtraSize (w.depth + 1) = content.extraTop := by
      have hextra := hsecond.extra
      rw [hlevel] at hextra
      rw [hextra, hrest]
      exact (congrArg (· + content.extraTop) (Function.update_self _ _ _)).trans (Nat.zero_add _)
    have htop := content.extraTop_le
    have hclose := closeContainer_spec (by omega) hheader harray
      (by omega : second.dataPtr = w.dataPtr + 1 + (kind.head.length + content.rawLength : ℕ))
      hextra (by omega) (by omega) (by omega)
    rw [Kind.finish_eq]
    refine wp_bind.mpr (wp_mono hclose ?_ fun _ _ hfail ↦ hfail)
    rintro - third hthird
    have hptrThird : third.dataPtr = second.dataPtr := by rw [hthird]; rfl
    have hbaseThird : third.bufferStart = second.bufferStart := by rw [hthird]; rfl
    have hlimitThird : third.dataEnd = second.dataEnd := by rw [hthird]; rfl
    have hlevelThird : third.depth = w.depth := by rw [hthird]; rfl
    have hroomNext : HasRoom next.rawLength third := ⟨by omega, by omega, by omega⟩
    refine wp_mono (ihNext hroomNext (by omega)) ?_ fun _ _ hfail ↦ hfail
    rintro - w' hw'
    exact BodyWritten.container hstart hfirst hsecond hthird hw'

/-! ## The second pass -/

theorem keep_byte (byte : UInt8) : byte &&& 0xFF = byte := UInt8.and_neg_one

/-- Writing the header of a long container changes nothing but the bytes of its length. -/
theorem storeHeader_spec {length : ℕ} (hlong : 0x80 ≤ length) (hshort : length < 2 ^ 22) (pHdr : ℤ)
    (w : DataWriter) :
    wp (storeHeader pHdr (extraHeaderBytes length) (packedLength length))
      (fun _ w' ↦ w' = { w with mem := store w.mem pHdr (packedUInt22 length) })
      (fun _ _ ↦ False) w := by
  have hword : List.zipWith (· ||| ·) (littleEndian 4 (packedLength length % 2 ^ 24))
      (List.zipWith (· &&& ·) (bytes w.mem pHdr 4) (keepMask (extraHeaderBytes length))) =
      packedUInt22 length ++
        bytes w.mem (pHdr + (packedUInt22 length).length) (4 - (packedUInt22 length).length) := by
    by_cases htwo : length < 0x4000
    · have hextra : extraHeaderBytes length = 1 := if_neg (by omega)
      have hpacked : packedLength length % 2 ^ 24 =
          0x80 + length % 0x40 + length / 0x40 * 256 := by
        rw [packedLength, hextra]
        omega
      have hbytes : packedUInt22 length =
          [UInt8.ofNat (0x80 + length % 0x40), UInt8.ofNat (length / 0x40)] := by
        rw [packedUInt22, if_neg (by omega), if_pos htwo]
      rw [hpacked, hbytes, hextra]
      have hsecond : (0x80 + length % 0x40 + length / 0x40 * 256) / 256 = length / 0x40 := by omega
      have hthird : length / 0x40 / 256 = 0 := by omega
      have haddress : pHdr + 1 + 1 = pHdr + 2 := by omega
      simp [littleEndian, bytes, keepMask, hsecond, hthird, haddress, keep_byte]
    · have hextra : extraHeaderBytes length = 2 := if_pos (by omega)
      have hpacked : packedLength length % 2 ^ 24 =
          0xC0 + length % 0x40 + length / 0x40 * 256 := by
        rw [packedLength, hextra]
        omega
      have hbytes : packedUInt22 length =
          [UInt8.ofNat (0xC0 + length % 0x40), UInt8.ofNat (length / 0x40),
            UInt8.ofNat (length / 0x4000)] := by
        rw [packedUInt22, if_neg (by omega), if_neg (by omega)]
      rw [hpacked, hbytes, hextra]
      have hsecond : (0xC0 + length % 0x40 + length / 0x40 * 256) / 256 = length / 0x40 := by omega
      have hthird : length / 0x40 / 256 = length / 0x4000 := by omega
      have hfourth : length / 0x4000 / 256 = 0 := by omega
      have haddress : pHdr + 1 + 1 + 1 = pHdr + 3 := by omega
      simp [littleEndian, bytes, keepMask, hsecond, hthird, hfourth, haddress, keep_byte]
  rw [storeHeader, wp_modify]
  simp only [hword, store_append_bytes]

theorem expandLoop_append (pBufferStart : ℤ) (first second : List ExpansionPoint) (pEnd offset : ℤ) :
    expandLoop pBufferStart (first ++ second) pEnd offset = (do
      let result ← expandLoop pBufferStart first pEnd offset
      expandLoop pBufferStart second result.1 result.2) := by
  induction first generalizing pEnd offset with
  | nil => rfl
  | cons point points ih =>
    simp only [List.cons_append, expandLoop, bind_assoc, ih]

/-- What the loop does for the expansion points of a body that starts at `start`, when `k` bytes are
to be inserted before it. -/
structure Expanded (body : Body) (start : ℤ) (k : ℕ) (result : ℤ × ℤ) (w w' : DataWriter) : Prop where
  pEnd : result.1 = start + body.lead
  offset : result.2 = k
  before : ∀ address < start + body.lead + k, w'.mem address = w.mem address
  data : slice w'.mem (start + body.lead + k) (start + body.rawLength + body.extraTop + k) =
    body.encode.drop body.lead
  rest : w' = { w with mem := w'.mem }

namespace Body

theorem lead_le_rawLength {body : Body} (h : body.Flat) : body.lead ≤ body.rawLength := by
  induction body with
  | done => exact le_rfl
  | leaf data beyond next ih => exact Nat.add_le_add_left (ih h) _
  | container kind content next ihContent ihNext =>
    obtain ⟨hcontent, hnext⟩ := h
    have hle := ihNext hnext
    rw [lead, rawLength]
    rw [contentLength_eq, ← hcontent.raw_eq.1, length_raw]
    split_ifs <;> omega

/-- A container with a short content is left as it is in the reference encoding. -/
theorem raw_short_container {kind : Kind} {content : Body} (next : Body) (hcontent : content.Small)
    (hlength : contentLength kind content < 0x80) :
    (container kind content next).raw =
      packedUInt22 (contentLength kind content) ++ (kind.head ++ content.encode) ++ next.raw := by
  rw [raw, hcontent.closedLength_eq, hcontent.raw_eq.1, packedUInt22, if_pos hlength]
  rfl

theorem length_short_container (kind : Kind) (content : Body)
    (hlength : contentLength kind content < 0x80) :
    (packedUInt22 (contentLength kind content) ++ (kind.head ++ content.encode)).length =
      1 + contentLength kind content := by
  rw [List.length_append, length_packedUInt22, extraBytes_of_lt hlength, contentLength]

/-- Before its first long container the first pass leaves the reference encoding of a flat body. -/
theorem take_lead_raw {body : Body} (h : body.Flat) :
    body.raw.take body.lead = body.encode.take body.lead := by
  induction body with
  | done => rfl
  | leaf data beyond next ih =>
    rw [raw, encode, lead, List.take_length_add_append, List.take_length_add_append, ih h]
  | container kind content next ihContent ihNext =>
    obtain ⟨hcontent, hnext⟩ := h
    rw [lead]
    split_ifs with hlong
    · rfl
    · have hlength : contentLength kind content < 0x80 := by omega
      rw [raw_short_container next hcontent hlength, encode, ← length_short_container kind content hlength,
        contentLength, List.take_length_add_append, List.take_length_add_append, ihNext hnext]

end Body

/-- A block that the loop leaves alone, in front of a body for which its work is known. -/
theorem Expanded.skip {body next : Body} {block : List UInt8} {start : ℤ} {k : ℕ} {result : ℤ × ℤ}
    {w w' : DataWriter} (h : Expanded next (start + block.length) k result w w')
    (hlead : body.lead = block.length + next.lead)
    (hlength : body.rawLength = block.length + next.rawLength) (hextra : body.extraTop = next.extraTop)
    (hencode : body.encode = block ++ next.encode) : Expanded body start k result w w' := by
  have hstart : start + (body.lead : ℤ) = start + block.length + next.lead := by
    rw [hlead]
    push_cast
    ring
  have hend : start + (body.rawLength : ℤ) = start + block.length + next.rawLength := by
    rw [hlength]
    push_cast
    ring
  refine ⟨?_, h.offset, ?_, ?_, h.rest⟩
  · rw [h.pEnd, hstart]
  · rw [hstart]
    exact h.before
  · rw [hstart, hend, hextra, h.data, hencode, hlead, List.drop_length_add_append]

/-- One turn of the loop: the block up to `pEnd` is moved by `offset`, and in front of it stands the
length in place of the reserved byte. -/
structure PointExpanded (start pEnd : ℤ) (offset length : ℕ) (result : ℤ × ℤ) (w w' : DataWriter) :
    Prop where
  result : result = (start, (offset : ℤ))
  before : ∀ address < start + offset, w'.mem address = w.mem address
  data : slice w'.mem (start + offset) (pEnd + extraBytes length + offset) =
    packedUInt22 length ++ slice w.mem (start + 1) pEnd
  after : ∀ address ≥ pEnd + extraBytes length + offset, w'.mem address = w.mem address
  rest : w' = { w with mem := w'.mem }

theorem expandLoop_point {length : ℕ} (hlong : 0x80 ≤ length) (hshort : length < 2 ^ 22) (base : ℤ)
    (start offset : ℕ) {pEnd : ℤ} (hend : base + start + 1 ≤ pEnd) (w : DataWriter) :
    wp (expandLoop base [⟨start + 1, packedLength length⟩] pEnd (extraBytes length + offset))
      (fun result w' ↦ PointExpanded (base + start) pEnd offset length result w w')
      (fun _ _ ↦ False) w := by
  have hdiff := packedLength_div hshort
  have hpacked := length_packedUInt22 length
  rw [extraBytes_of_ge hlong] at hpacked
  have hcount : ¬ pEnd - (base + (start + 1 : ℕ)) < 0 := by
    push_cast
    omega
  simp only [expandLoop, memmove, wp_bind, wp_ite, wp_throw, wp_modify, wp_pure, hcount, hdiff,
    false_implies, not_false_eq_true, true_implies, true_and, extraBytes_of_ge hlong]
  refine wp_mono (storeHeader_spec hlong hshort _ _) ?_ fun _ _ hfail ↦ hfail
  rintro - w' hw'
  have hstart : base + ((start + 1 : ℕ) : ℤ) = base + start + 1 := by
    push_cast
    ring
  have hheader : base + start + 1 - 1 + (((extraHeaderBytes length : ℕ) : ℤ) + offset -
      (extraHeaderBytes length : ℕ)) = base + start + offset := by ring
  rw [hstart, hheader] at hw'
  obtain ⟨count, hcountEq⟩ : ∃ count : ℕ, pEnd = base + start + 1 + count :=
    ⟨(pEnd - (base + start + 1)).toNat, by omega⟩
  have htoNat : (pEnd - (base + start + 1)).toNat = count := by omega
  rw [htoNat] at hw'
  generalize hextra : extraHeaderBytes length = extra at *
  have hmem : w'.mem = store (move w.mem (base + start + 1 + (extra + offset)) (base + start + 1) count)
      (base + start + offset) (packedUInt22 length) := by rw [hw']
  refine ⟨?_, ?_, ?_, ?_, ?_⟩
  · rw [hstart]
    congr 1 <;> ring
  · intro address hlt
    rw [hmem, store_of_lt hlt]
    exact store_of_lt (by omega)
  · have hfirst : slice w'.mem (base + start + offset) (base + start + offset + (1 + extra : ℕ)) =
        packedUInt22 length := by
      rw [hmem, ← hpacked]
      exact slice_store _ _ _
    have hsecond : slice w'.mem (base + start + offset + (1 + extra : ℕ)) (pEnd + extra + offset) =
        slice w.mem (base + start + 1) pEnd := by
      have htarget : base + start + offset + ((1 + extra : ℕ) : ℤ) =
          base + start + 1 + (extra + offset) := by
        push_cast
        ring
      have hstop : pEnd + extra + offset = base + start + 1 + (extra + offset) + count := by
        rw [hcountEq]
        ring
      rw [hmem, slice_store_after (by rw [hpacked]), htarget, hstop, slice_move, hcountEq]
    rw [extraBytes_of_ge hlong, hextra,
      slice_append _ (base + start + offset + (1 + extra : ℕ)) (by omega) (by omega), hfirst, hsecond]
  · intro address hge
    rw [extraBytes_of_ge hlong, hextra] at hge
    rw [hmem, store_of_ge (by omega)]
    exact store_of_ge (by rw [length_bytes]; omega)
  · rw [hw']

/-- A long container with a small content: its content and what stands before the next long
container are moved together, and its length is written in front. -/
theorem expandLoop_container {kind : Kind} {content next : Body} {base : ℤ} {start k : ℕ}
    {result : ℤ × ℤ} {w middle : DataWriter} (hcontent : content.Small) (hnext : next.Flat)
    (hlong : 0x80 ≤ Body.contentLength kind content)
    (hshort : Body.contentLength kind content < 2 ^ 22)
    (hraw : slice w.mem (base + start)
        (base + start + (Body.container kind content next).rawLength) =
      (Body.container kind content next).raw)
    (h : Expanded next (base + start + (1 + Body.contentLength kind content : ℕ))
      (extraBytes (Body.contentLength kind content) + k) result w middle) :
    wp (expandLoop base [⟨start + 1, packedLength (Body.contentLength kind content)⟩]
        result.1 result.2)
      (fun result w' ↦ Expanded (.container kind content next) (base + start) k result w w')
      (fun _ _ ↦ False) middle := by
  have hclosed := hcontent.closedLength_eq kind
  have hextra : (Body.container kind content next).extraTop =
      extraBytes (Body.contentLength kind content) + next.extraTop := by
    rw [Body.extraTop_container, hclosed]
  have hlead : (Body.container kind content next).lead = 0 := if_pos hlong
  have hcontentRaw := hcontent.rawLength_add_head kind
  have hlength : (Body.container kind content next).rawLength =
      1 + Body.contentLength kind content + next.rawLength := by
    rw [Body.rawLength, hcontentRaw]
  have hleadNext := Body.lead_le_rawLength hnext
  have hend := h.pEnd
  have hoffset := h.offset
  -- the content and what stands before the next long container are as the first pass left them
  have hblock : slice middle.mem (base + start + 1) result.1 =
      kind.head ++ content.encode ++ next.encode.take next.lead := by
    have hrawEq : (Body.container kind content next).raw =
        [UInt8.ofNat (Body.contentLength kind content)] ++
          ((kind.head ++ content.encode ++ next.encode.take next.lead) ++
            next.raw.drop next.lead) := by
      rw [Body.raw, hclosed, hcontent.raw_eq.1, ← Body.take_lead_raw hnext,
        List.append_assoc _ _ (next.raw.drop _), List.take_append_drop]
      rfl
    have hcongr : slice middle.mem (base + start + 1) result.1 =
        slice w.mem (base + start + 1) result.1 :=
      slice_congr fun address _ hlt ↦ h.before address (by omega)
    rw [hrawEq, slice_append _ (base + start + 1) (by omega) (by omega)] at hraw
    have htail := (List.append_inj hraw (by simp)).2
    rw [slice_append _ result.1 (by omega) (by omega)] at htail
    have hlengths : (slice w.mem (base + start + 1) result.1).length =
        (kind.head ++ content.encode ++ next.encode.take next.lead).length := by
      rw [← Body.take_lead_raw hnext, List.length_append, ← Body.contentLength, List.length_take,
        Body.length_raw, length_slice]
      omega
    rw [hcongr]
    exact (List.append_inj htail hlengths).1
  have hpoint := expandLoop_point hlong hshort base start k (by omega : base + start + 1 ≤ result.1)
    middle
  rw [hoffset]
  push_cast at hpoint ⊢
  refine wp_mono hpoint ?_ fun _ _ hfail ↦ hfail
  rintro last w' hw'
  obtain ⟨stop, hstop⟩ : ∃ stop : ℤ, stop =
      result.1 + extraBytes (Body.contentLength kind content) + k := ⟨_, rfl⟩
  have hbehind : slice w'.mem stop
      (base + start + (Body.container kind content next).rawLength +
        (Body.container kind content next).extraTop + k) = next.encode.drop next.lead := by
    have hdata := h.data
    have hfrom : base + start + ((1 + Body.contentLength kind content : ℕ) : ℤ) + next.lead +
        ((extraBytes (Body.contentLength kind content) + k : ℕ) : ℤ) = stop := by omega
    have hto : base + start + ((1 + Body.contentLength kind content : ℕ) : ℤ) + next.rawLength +
        next.extraTop + ((extraBytes (Body.contentLength kind content) + k : ℕ) : ℤ) =
        base + start + (Body.container kind content next).rawLength +
          (Body.container kind content next).extraTop + k := by omega
    rw [hfrom, hto] at hdata
    rw [slice_congr fun address hle _ ↦ hw'.after address (by omega), hdata]
  refine ⟨?_, ?_, ?_, ?_, ?_⟩
  · rw [hw'.result, hlead]
    exact (Int.add_zero _).symm
  · rw [hw'.result]
  · intro address hlt
    rw [hlead] at hlt
    rw [hw'.before address (by omega), h.before address (by omega)]
  · have hfront := hw'.data
    rw [← hstop, hblock] at hfront
    have hzero : base + start + ((0 : ℕ) : ℤ) + k = base + start + k := by omega
    calc slice w'.mem (base + start + (Body.container kind content next).lead + k)
          (base + start + (Body.container kind content next).rawLength +
            (Body.container kind content next).extraTop + k)
        = slice w'.mem (base + start + k) stop ++ slice w'.mem stop
            (base + start + (Body.container kind content next).rawLength +
              (Body.container kind content next).extraTop + k) := by
          rw [hlead, hzero, slice_append _ stop (by omega) (by omega)]
      _ = packedUInt22 (Body.contentLength kind content) ++
            (kind.head ++ content.encode ++ next.encode.take next.lead) ++
            next.encode.drop next.lead := by rw [hfront, hbehind]
      _ = packedUInt22 (Body.contentLength kind content) ++ (kind.head ++ content.encode) ++
            (next.encode.take next.lead ++ next.encode.drop next.lead) := by
          simp only [List.append_assoc]
      _ = (Body.container kind content next).encode := by
          rw [List.take_append_drop, Body.encode, Body.contentLength]
      _ = (Body.container kind content next).encode.drop (Body.container kind content next).lead := by
          rw [hlead, List.drop_zero]
  · rw [hw'.rest, h.rest]

/-- The part of a slice that belongs to what follows a block. -/
theorem slice_after_block {mem : Memory} {start : ℤ} {block rest : List UInt8} {length : ℕ}
    (h : slice mem start (start + (block.length + length : ℕ)) = block ++ rest) :
    slice mem (start + block.length) (start + block.length + length) = rest := by
  push_cast at h
  rw [slice_append _ (start + block.length) (by omega) (by omega), ← add_assoc] at h
  exact (List.append_inj h (by simp)).2

/-- The loop over all the expansion points of a flat body, by induction on the body: what follows a
container is moved before its own point is reached. -/
theorem expandLoop_spec (body : Body) {base : ℤ} {start : ℕ} (k : ℕ) {w : DataWriter}
    (hflat : body.Flat) (hshort : body.Short)
    (hraw : slice w.mem (base + start) (base + start + body.rawLength) = body.raw) :
    wp (expandLoop base (body.points start).reverse (base + start + body.rawLength)
        (body.extraTop + k : ℕ))
      (fun result w' ↦ Expanded body (base + start) k result w w')
      (fun _ _ ↦ False) w := by
  induction body generalizing start k with
  | done =>
    refine ⟨rfl, by simp [Body.extraTop], fun _ _ ↦ rfl, ?_, rfl⟩
    exact slice_of_le _ (by simp [Body.lead, Body.rawLength, Body.extraTop])
  | leaf data beyond next ih =>
    rw [Body.rawLength, Body.raw] at hraw
    have hstart : base + ((start + data.length : ℕ) : ℤ) = base + start + data.length := by
      push_cast
      ring
    have hnext := slice_after_block hraw
    rw [← hstart] at hnext
    have hloop := ih k hflat hshort hnext
    rw [hstart, add_assoc _ (data.length : ℤ), ← Nat.cast_add] at hloop
    refine wp_mono hloop ?_ fun _ _ hfail ↦ hfail
    rintro result w' hw'
    exact hw'.skip rfl rfl rfl rfl
  | container kind content next ihContent ihNext =>
    obtain ⟨hcontent, hnext⟩ := hflat
    obtain ⟨hbound, -, hshortNext⟩ := hshort
    have hclosed := hcontent.closedLength_eq kind
    have hcontentRaw := hcontent.rawLength_add_head kind
    have hlength : (Body.container kind content next).rawLength =
        1 + Body.contentLength kind content + next.rawLength := by
      rw [Body.rawLength, hcontentRaw]
    have hpoints : (Body.container kind content next).points start =
        (if 0x80 ≤ Body.contentLength kind content then
          [⟨start + 1, packedLength (Body.contentLength kind content)⟩] else []) ++
        next.points (start + (1 + Body.contentLength kind content)) := by
      simp only [Body.points, hcontent.points_eq, hclosed, hcontentRaw, List.nil_append, Nat.add_assoc]
    obtain ⟨block, hblock, hblockRaw⟩ : ∃ block : List UInt8,
        block.length = 1 + Body.contentLength kind content ∧
          (Body.container kind content next).raw = block ++ next.raw := by
      refine ⟨UInt8.ofNat (Body.closedLength kind content) :: (kind.head ++ content.raw), ?_, rfl⟩
      rw [← hcontentRaw, List.length_cons, List.length_append, Body.length_raw]
      omega
    have hrawNext := hraw
    rw [hlength, hblockRaw, ← hblock] at hrawNext
    have hstart : base + ((start + (1 + Body.contentLength kind content) : ℕ) : ℤ) =
        base + start + block.length := by
      rw [hblock]
      push_cast
      ring
    have hrawAt := slice_after_block hrawNext
    rw [← hstart] at hrawAt
    have hend : base + start + ((Body.container kind content next).rawLength : ℤ) =
        base + start + block.length + next.rawLength := by
      rw [hlength, hblock]
      push_cast
      ring
    rw [hpoints, List.reverse_append, expandLoop_append, hend, Body.extraTop_container, hclosed, wp_bind]
    by_cases hlong : 0x80 ≤ Body.contentLength kind content
    · have hloop := ihNext (extraBytes (Body.contentLength kind content) + k) hnext hshortNext hrawAt
      rw [hstart] at hloop
      have hoffset : extraBytes (Body.contentLength kind content) + next.extraTop + k =
          next.extraTop + (extraBytes (Body.contentLength kind content) + k) := by omega
      rw [hoffset, if_pos hlong]
      refine wp_mono hloop ?_ fun _ _ hfail ↦ hfail
      rintro result middle hmiddle
      rw [hblock] at hmiddle
      exact expandLoop_container hcontent hnext hlong hbound hraw hmiddle
    · have hloop := ihNext k hnext hshortNext hrawAt
      rw [hstart] at hloop
      have hnone : extraBytes (Body.contentLength kind content) = 0 := extraBytes_of_lt (by omega)
      rw [hnone, Nat.zero_add, if_neg hlong]
      refine wp_mono hloop ?_ fun _ _ hfail ↦ hfail
      rintro result w' hw'
      have hshortBlock := Body.length_short_container kind content (by omega)
      rw [hblock, ← hshortBlock] at hw'
      refine hw'.skip ?_ ?_ ?_ rfl
      · rw [Body.lead, if_neg hlong, hshortBlock]
      · rw [hlength, hshortBlock]
      · rw [Body.extraTop_container, hclosed, hnone, Nat.zero_add]

/-! ### Bodies that are not flat -/

theorem sum_points {body : Body} (hshort : body.Short) (start : ℕ) :
    ((body.points start).map fun point ↦ point.headerLength / 2 ^ 24).sum = body.extraAll := by
  induction body generalizing start with
  | done => rfl
  | leaf data beyond next ih => exact ih hshort _
  | container kind content next ihContent ihNext =>
    obtain ⟨hbound, hcontent, hnext⟩ := hshort
    have hclosed := Body.closedLength_le kind content
    simp only [Body.points, List.map_append, List.sum_append, ihContent hcontent, ihNext hnext,
      Body.extraAll]
    by_cases hlong : 0x80 ≤ Body.closedLength kind content
    · rw [if_pos hlong, extraBytes_of_ge hlong, List.map_singleton, List.sum_singleton,
        packedLength_div (lt_of_le_of_lt hclosed hbound)]
    · rw [if_neg hlong, extraBytes_of_lt (by omega), List.map_nil, List.sum_nil]

/-- Every turn of the loop takes the bytes it inserts off the offset. -/
theorem expandLoop_offset (base : ℤ) (points : List ExpansionPoint) (pEnd offset : ℤ)
    (w : DataWriter) :
    wp (expandLoop base points pEnd offset)
      (fun result _ ↦ result.2 =
        offset - ((points.map fun point ↦ point.headerLength / 2 ^ 24).sum : ℕ))
      (fun _ _ ↦ True) w := by
  induction points generalizing pEnd offset w with
  | nil => exact (Int.sub_zero offset).symm
  | cons point points ih =>
    simp only [expandLoop, memmove, storeHeader, wp_bind, wp_ite, wp_throw, wp_modify,
      implies_true, true_and]
    intro _
    refine wp_mono (ih _ _ _) ?_ fun _ _ _ ↦ trivial
    rintro result w' hw'
    rw [hw', List.map_cons, List.sum_cons]
    push_cast
    ring

/-! ## Whole messages -/

/-- The message fits: in the buffer, in the nesting depth and in the lengths. -/
structure Writable (body : Body) (w : DataWriter) : Prop where
  start : w.bufferStart ≤ w.dataPtr
  room : w.dataPtr + 4 + body.encode.length ≤ w.dataEnd
  bounded : w.dataEnd - w.bufferStart < 2 ^ 32
  nesting : body.nesting ≤ loaderMaxNestedObjects
  short : body.Short

/-- The state in which `finishMessage` is called, after a first pass that started at
`messageStart`. -/
structure Unfinished (body : Body) (messageStart : ℤ) (w : DataWriter) : Prop where
  start : w.bufferStart ≤ messageStart
  dataPtr : w.dataPtr = messageStart + body.rawLength
  room : w.dataPtr + body.extraTop ≤ w.dataEnd
  data : slice w.mem messageStart w.dataPtr = body.raw
  depth : w.depth = 0
  extra : w.containerContentsExtraSize 0 = body.extraTop
  points : w.expansionPoints = body.points (messageStart - w.bufferStart).toNat

theorem startMessage_spec {w : DataWriter} (hroom : w.dataPtr + 4 ≤ w.dataEnd) :
    wp startMessage
      (fun messageStart w' ↦ messageStart = w.dataPtr + 4 ∧ w'.dataPtr = w.dataPtr + 4 ∧
        w'.depth = 0 ∧ w'.containerContentsExtraSize 0 = 0 ∧ w'.expansionPoints = [] ∧
        w'.bufferStart = w.bufferStart ∧ w'.dataEnd = w.dataEnd)
      (fun _ _ ↦ False) w := by
  have hput := putBE_spec [0, 0, 0, 0] [] hroom
  rw [List.append_nil] at hput
  unfold startMessage
  refine wp_bind.mpr (wp_get.mpr (wp_bind.mpr (wp_mono hput ?_ fun _ _ hfail ↦ hfail)))
  rintro - w' hw'
  have hrest := hw'.rest
  simp only [wp_bind, wp_modify, wp_pure]
  refine ⟨trivial, hw'.dataPtr, trivial, Function.update_self _ _ _, trivial, ?_, ?_⟩
  · rw [hrest]
  · rw [hrest]

/-- Everything up to `finishMessage`. -/
theorem writeMessage_iff {body : Body} {w : DataWriter} (h : Writable body w)
    (post : ℤ → DataWriter → Prop) (fail : WriteError → DataWriter → Prop) :
    ∃ w', Unfinished body (w.dataPtr + 4) w' ∧
      (wp (writeMessage body) post fail w ↔ wp (finishMessage (w.dataPtr + 4)) post fail w') := by
  have hlength := body.rawLength_add_extraTop_le
  have hstart := h.start
  have hroom := h.room
  have hbounded := h.bounded
  obtain ⟨messageStart, first, hrun, hmessage, hptr, hdepth, hextra, hpoints, hbase, hend⟩ :=
    exists_ok_of_wp (startMessage_spec (w := w) (by omega))
  have hfirst : HasRoom body.rawLength first := ⟨by omega, by omega, by omega⟩
  have hnesting : first.depth + body.nesting ≤ 16 := by
    rw [hdepth, Nat.zero_add]
    exact h.nesting
  obtain ⟨value, second, hbody, hwritten⟩ := exists_ok_of_wp (writeBody_spec body hfirst hnesting)
  have hsecond : Unfinished body (w.dataPtr + 4) second := by
    have hptrSecond := hwritten.dataPtr
    have hbaseSecond := hwritten.bufferStart
    have hendSecond := hwritten.dataEnd
    refine ⟨by omega, by omega, by omega, ?_, ?_, ?_, ?_⟩
    · rw [← hptr]
      exact hwritten.data
    · rw [hwritten.depth, hdepth]
    · have hextraSecond := hwritten.extra
      rwa [hdepth, hextra, Nat.zero_add] at hextraSecond
    · rw [hwritten.points, hpoints, List.nil_append, hptr, hbaseSecond]
  refine ⟨second, hsecond, ?_⟩
  rw [writeMessage, wp_bind, wp_ok hrun, wp_bind, wp_ok hbody, hmessage]

namespace Body

/-- A flat body asks for no bytes only if there is no long container. -/
theorem Flat.small {body : Body} (h : body.Flat) (hnone : body.extraTop = 0) : body.Small := by
  induction body with
  | done => trivial
  | leaf data beyond next ih => exact ih h hnone
  | container kind content next ihContent ihNext =>
    obtain ⟨hcontent, hnext⟩ := h
    rw [extraTop_container, hcontent.closedLength_eq] at hnone
    refine ⟨?_, hcontent, ihNext hnext (by omega)⟩
    by_contra hlong
    have hpos := extraHeaderBytes_pos (contentLength kind content)
    rw [← extraBytes_of_ge (by omega)] at hpos
    omega

/-- A body with a long container starts with it exactly if nothing stands before it. -/
theorem lead_eq_zero_iff {body : Body} (h : body.Flat) (hsome : 0 < body.extraTop) :
    body.lead = 0 ↔ body.StartsLong := by
  induction body with
  | done => exact absurd hsome (lt_irrefl 0)
  | leaf data beyond next ih =>
    rw [lead, StartsLong, ← ih h hsome, Nat.add_eq_zero_iff, List.length_eq_zero_iff]
  | container kind content next ihContent ihNext =>
    rw [lead, StartsLong]
    split_ifs with hlong
    · exact ⟨fun _ ↦ hlong, fun _ ↦ rfl⟩
    · constructor
      · intro hzero
        omega
      · intro hlong'
        exact absurd hlong' hlong

theorem length_encode {body : Body} (h : body.Flat) :
    body.encode.length = body.rawLength + body.extraTop := by
  induction body with
  | done => rfl
  | leaf data beyond next ih =>
    rw [encode, List.length_append, ih h, rawLength, extraTop]
    omega
  | container kind content next ihContent ihNext =>
    obtain ⟨hcontent, hnext⟩ := h
    rw [length_encode_container, ihNext hnext, rawLength, extraTop_container,
      hcontent.closedLength_eq, hcontent.rawLength_add_head]
    omega

theorem not_startsLong {body : Body} (h : body.Small) : ¬ body.StartsLong := by
  induction body with
  | done => exact id
  | leaf data beyond next ih => exact fun hstarts ↦ ih h hstarts.2
  | container kind content next ihContent ihNext => exact not_le.mpr h.1

end Body

/-- The loop over a flat body: it fails exactly if the message starts with a long container. -/
theorem expandHeaders_flat {body : Body} {messageStart : ℤ} {w : DataWriter}
    (hflat : body.Flat) (hshort : body.Short) (h : Unfinished body messageStart w)
    (hsome : 0 < body.extraTop) :
    wp (expandHeaders w.bufferStart w.dataPtr body.extraTop w.expansionPoints messageStart)
      (fun _ w' ↦ ¬ body.StartsLong ∧
        slice w'.mem messageStart (messageStart + body.encode.length) = body.encode)
      (fun _ _ ↦ body.StartsLong) w := by
  have hstart := h.start
  have hbase : w.bufferStart + ((messageStart - w.bufferStart).toNat : ℤ) = messageStart := by omega
  have hpoints : w.expansionPoints ≠ [] := by
    intro hnil
    have hsum := sum_points hshort (messageStart - w.bufferStart).toNat
    have hle := body.extraTop_le_extraAll
    rw [← h.points, hnil] at hsum
    simp only [List.map_nil, List.sum_nil] at hsum
    omega
  have hraw : slice w.mem (w.bufferStart + (messageStart - w.bufferStart).toNat)
      (w.bufferStart + (messageStart - w.bufferStart).toNat + body.rawLength) = body.raw := by
    rw [hbase, ← h.dataPtr]
    exact h.data
  have hloop := expandLoop_spec body 0 hflat hshort hraw
  rw [hbase, ← h.points, ← h.dataPtr, Nat.add_zero] at hloop
  rw [expandHeaders, if_neg hpoints, wp_bind]
  refine wp_mono hloop ?_ fun _ _ hfail ↦ hfail.elim
  rintro result w' hw'
  have hlead := Body.lead_eq_zero_iff hflat hsome
  have hpEnd := hw'.pEnd
  have hoffset := hw'.offset
  simp only [wp_ite, wp_throw, wp_pure]
  constructor
  · intro hfails
    refine hlead.mp ?_
    simp only [hoffset, Nat.cast_zero, ne_eq, not_true_eq_false, false_or] at hfails
    omega
  · intro hworks
    refine ⟨fun hstarts ↦ hworks (Or.inr ?_), ?_⟩
    · rw [hpEnd, hlead.mpr hstarts, Nat.cast_zero, add_zero]
    · have hfront : slice w'.mem messageStart (messageStart + body.lead) =
          body.encode.take body.lead := by
        have hle := Body.lead_le_rawLength hflat
        have hcongr : slice w'.mem messageStart (messageStart + body.lead) =
            slice w.mem messageStart (messageStart + body.lead) :=
          slice_congr fun address _ hlt ↦ hw'.before address (by omega)
        rw [hcongr, ← Body.take_lead_raw hflat, ← h.data, take_slice _ _ (by rw [h.dataPtr]; omega),
          slice_add]
      have hback := hw'.data
      simp only [Nat.cast_zero, add_zero] at hback
      have hlength := Body.length_encode hflat
      have hend : messageStart + (body.encode.length : ℤ) =
          messageStart + body.rawLength + body.extraTop := by
        rw [hlength]
        push_cast
        ring
      have hle := Body.lead_le_rawLength hflat
      rw [hend, slice_append _ (messageStart + body.lead) (by omega) (by omega), hfront, hback,
        List.take_append_drop]

theorem finishMessage_flat {body : Body} {messageStart : ℤ} {w : DataWriter} (hflat : body.Flat)
    (hshort : body.Short) (h : Unfinished body messageStart w) :
    wp (finishMessage messageStart)
      (fun messageEnd w' ↦ ¬ body.StartsLong ∧ messageEnd = messageStart + body.encode.length ∧
        slice w'.mem messageStart messageEnd = body.encode)
      (fun _ _ ↦ body.StartsLong) w := by
  have hlength := Body.length_encode hflat
  have hdataPtr := h.dataPtr
  have hroom := h.room
  have hdepth := h.depth
  have hextra := h.extra
  simp only [finishMessage, wp_bind, wp_get, wp_ite, wp_throw, wp_pure, wp_modify, hdepth, hextra,
    ne_eq, not_true_eq_false, false_implies, not_false_eq_true, true_implies, true_and]
  constructor
  · intro hnone
    have hsmall := hflat.small hnone
    refine ⟨Body.not_startsLong hsmall, by omega, ?_⟩
    rw [h.data, hsmall.raw_eq.1]
  · intro hsome
    refine ⟨fun hover ↦ absurd hroom (by omega), fun _ ↦ ?_⟩
    refine wp_mono (expandHeaders_flat hflat hshort h (by omega)) ?_ fun _ _ hfail ↦ hfail
    rintro - w' ⟨hstarts, hdata⟩
    have hend : w.dataPtr + (body.extraTop : ℤ) = messageStart + body.encode.length := by
      rw [hlength, hdataPtr]
      push_cast
      ring
    refine ⟨hstarts, hend, ?_⟩
    rw [hend]
    exact hdata

/-- A long container inside another one: bytes are inserted for the inner one that the outer one
did not ask for, and the loop ends with a negative offset. -/
theorem finishMessage_not_flat {body : Body} {messageStart : ℤ} {w : DataWriter}
    (hflat : ¬ body.Flat) (hshort : body.Short) (h : Unfinished body messageStart w) :
    wp (finishMessage messageStart) (fun _ _ ↦ False) (fun _ _ ↦ True) w := by
  obtain ⟨hsome, hmore⟩ := Body.extraTop_lt_of_not_flat hflat
  have hsum := sum_points hshort (messageStart - w.bufferStart).toNat
  rw [← h.points] at hsum
  have hpoints : w.expansionPoints ≠ [] := by
    intro hnil
    rw [hnil] at hsum
    simp only [List.map_nil, List.sum_nil] at hsum
    omega
  have hreverse : (w.expansionPoints.reverse.map fun point ↦ point.headerLength / 2 ^ 24).sum =
      body.extraAll := by
    rw [List.map_reverse, List.sum_reverse, hsum]
  have hdepth := h.depth
  have hextra := h.extra
  simp only [finishMessage, expandHeaders, wp_bind, wp_get, wp_ite, wp_throw, wp_pure, wp_modify,
    hdepth, hextra, hpoints, ne_eq, not_true_eq_false, false_implies, not_false_eq_true,
    true_implies, true_and, implies_true]
  refine ⟨fun hnone ↦ by omega, fun _ _ ↦ ?_⟩
  refine wp_mono (expandLoop_offset _ _ _ _ _) ?_ fun _ _ _ ↦ trivial
  rintro result w' hresult
  rw [hreverse] at hresult
  intro hworks
  exact hworks (Or.inl (by omega))

theorem encodes_of_flat {body : Body} {w : DataWriter} (h : Writable body w) (hflat : body.Flat)
    (hstarts : ¬ body.StartsLong) : Encodes body w := by
  obtain ⟨w', hw', hiff⟩ := writeMessage_iff h
    (fun messageEnd w' ↦ messageEnd = w.dataPtr + 4 + body.encode.length ∧
      slice w'.mem (w.dataPtr + 4) messageEnd = body.encode) (fun _ _ ↦ False)
  refine hiff.mpr (wp_mono (finishMessage_flat hflat h.short hw') ?_ fun _ _ hfail ↦ hstarts hfail)
  rintro messageEnd last ⟨-, hend, hdata⟩
  exact ⟨hend, hdata⟩

theorem not_encodes_of_not_flat {body : Body} {w : DataWriter} (h : Writable body w)
    (hflat : ¬ body.Flat) : ¬ Encodes body w := by
  intro hencodes
  obtain ⟨w', hw', hiff⟩ := writeMessage_iff h
    (fun messageEnd w' ↦ messageEnd = w.dataPtr + 4 + body.encode.length ∧
      slice w'.mem (w.dataPtr + 4) messageEnd = body.encode) (fun _ _ ↦ False)
  have hboth := wp_and (hiff.mp hencodes) (finishMessage_not_flat hflat h.short hw')
  obtain ⟨value, last, -, -, hfalse⟩ := exists_ok_of_wp (wp_mono hboth (fun _ _ hpost ↦ hpost)
    fun _ _ hfail ↦ hfail.1)
  exact hfalse

theorem not_encodes_of_startsLong {body : Body} {w : DataWriter} (h : Writable body w)
    (hflat : body.Flat) (hstarts : body.StartsLong) : ¬ Encodes body w := by
  intro hencodes
  obtain ⟨w', hw', hiff⟩ := writeMessage_iff h
    (fun messageEnd w' ↦ messageEnd = w.dataPtr + 4 + body.encode.length ∧
      slice w'.mem (w.dataPtr + 4) messageEnd = body.encode) (fun _ _ ↦ False)
  have hboth := wp_and (hiff.mp hencodes) (finishMessage_flat hflat h.short hw')
  obtain ⟨value, last, -, -, hstarts', -⟩ := exists_ok_of_wp (wp_mono hboth
    (fun _ _ hpost ↦ hpost) fun _ _ hfail ↦ hfail.1)
  exact hstarts' hstarts

/-- A message is written as its reference encoding exactly if no container with a content of 128
bytes or more lies inside another one, nor stands at the very beginning of the message. -/
theorem writeMessage_encodes_iff {body : Body} {w : DataWriter} (h : Writable body w) :
    Encodes body w ↔ body.Flat ∧ ¬ body.StartsLong := by
  constructor
  · intro hencodes
    by_cases hflat : body.Flat
    · exact ⟨hflat, fun hstarts ↦ not_encodes_of_startsLong h hflat hstarts hencodes⟩
    · exact absurd hencodes (not_encodes_of_not_flat h hflat)
  · rintro ⟨hflat, hstarts⟩
    exact encodes_of_flat h hflat hstarts

/-- A writer over an empty buffer of `size` bytes. -/
def emptyWriter (size : ℕ) : DataWriter where
  mem _ := 0
  dataPtr := 0
  dataEnd := size
  bufferStart := 0
  depth := 0
  containerHeader _ := 0
  containerIsArray _ := false
  containerContentsExtraSize _ := 0
  expansionPoints := []

/-- A header of eleven bytes and an object. -/
def objectMessage (content : Body) : Body :=
  .leaf (List.replicate 11 0) [] (.container (.object 0) content .done)

/-- A value of 200 bytes. -/
def longValue : Body := .leaf (List.replicate 200 1) [] .done

theorem encode_longValue : longValue.encode.length = 200 := by
  simp [longValue, Body.encode, -List.reduceReplicate]

theorem length_encode_objectMessage (content : Body) :
    (objectMessage content).encode.length =
      12 + extraBytes (content.encode.length + 1) + (content.encode.length + 1) := by
  have hcontent : Body.contentLength (.object 0) content = content.encode.length + 1 := by
    rw [Body.contentLength_eq, Nat.add_comm]
    rfl
  rw [objectMessage, Body.encode, List.length_append, List.length_replicate,
    Body.length_encode_container, hcontent, Body.encode, List.length_nil]
  omega

theorem writable_objectMessage {content : Body} (hlength : content.encode.length < 900)
    (hnesting : content.nesting < 16) (hshort : content.Short) :
    Writable (objectMessage content) (emptyWriter 1000) := by
  have hwhole := length_encode_objectMessage content
  have hextra := extraBytes_le (content.encode.length + 1)
  constructor
  · exact le_rfl
  · change (0 : ℤ) + 4 + _ ≤ (1000 : ℕ)
    omega
  · change ((1000 : ℕ) : ℤ) - 0 < _
    omega
  · change max (content.nesting + 1) 0 ≤ 16
    omega
  · refine ⟨?_, hshort, trivial⟩
    rw [Body.contentLength_eq]
    simp only [Kind.head, List.length_singleton]
    omega

/-- An object of 200 bytes behind the header of a message is written as it should be. -/
theorem writeMessage_encodes_long_object : Encodes (objectMessage longValue) (emptyWriter 1000) := by
  have hwritable : Writable (objectMessage longValue) (emptyWriter 1000) :=
    writable_objectMessage (by rw [encode_longValue]; omega) (by decide) trivial
  rw [writeMessage_encodes_iff hwritable]
  refine ⟨⟨trivial, trivial⟩, ?_⟩
  rintro ⟨hnil, -⟩
  simp at hnil

/-- The same object inside another one. -/
theorem nested_long_object_fails :
    Writable (objectMessage (.container (.object 0) longValue .done)) (emptyWriter 1000) ∧
      ¬ Encodes (objectMessage (.container (.object 0) longValue .done)) (emptyWriter 1000) := by
  have hinner : Body.contentLength (.object 0) longValue = 201 := by
    rw [Body.contentLength_eq, encode_longValue]
    simp only [Kind.head, List.length_singleton, Nat.reduceAdd]
  have houter : (Body.container (.object 0) longValue .done).encode.length < 900 := by
    have hextra := extraBytes_le 201
    rw [Body.length_encode_container, hinner, Body.encode, List.length_nil]
    omega
  have hwritable : Writable (objectMessage (.container (.object 0) longValue .done))
      (emptyWriter 1000) :=
    writable_objectMessage houter (by decide) ⟨by omega, trivial, trivial⟩
  refine ⟨hwritable, not_encodes_of_not_flat hwritable ?_⟩
  rintro ⟨⟨hsmall, -⟩, -⟩
  omega

end DxApi.Writer
