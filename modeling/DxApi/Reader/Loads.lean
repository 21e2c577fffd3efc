import DxApi.Lib.ByteOrder
import DxApi.Reader.Message

/-!
# Words and strings

The numbers of a message are words of a few bytes, highest byte first, and its strings are bytes
after a length of 16 bits. A load takes the bytes that are ahead, wherever the buffer ends and
whatever the chunks are, or throws because there are not as many.
-/

namespace DxApi.Reader

open Exec ByteOrder

/-! ## The source -/

/-- `loadBE` of a word of `size` bytes. -/
def loadBE (cls : ReaderClass) (size : ℕ) : ReaderM ℕ := do
  let p ← bytes cls size
  let r ← get
  return ofBigEndian (ByteMemory.bytes r.mem p size)

/-- A word that is read lowest byte first, of which `size` bytes count. -/
def loadLE (cls : ReaderClass) (size : ℕ) : ReaderM ℕ := do
  let p ← bytes cls size
  let r ← get
  return ofLittleEndian (ByteMemory.bytes r.mem p size)

/-- The value of a word of `size` bytes in a signed type. -/
def signed (size value : ℕ) : ℤ := if value < 2 ^ (8 * size - 1) then value else value - 2 ^ (8 * size)

/-- The word of `size` bytes that holds a number of a signed type. -/
def unsigned (size : ℕ) (value : ℤ) : ℕ := (value % 2 ^ (8 * size)).toNat

def getByte (cls : ReaderClass) : ReaderM ℕ := loadBE cls 1
def getUInt16 (cls : ReaderClass) : ReaderM ℕ := loadBE cls 2
def getUInt32 (cls : ReaderClass) : ReaderM ℕ := loadBE cls 4
def getUInt64 (cls : ReaderClass) : ReaderM ℕ := loadBE cls 8
def getInt64 (cls : ReaderClass) : ReaderM ℤ := return signed 8 (← getUInt64 cls)

/-- `getUTF8` and `getAscii`: nothing for null. -/
def getUTF8 (cls : ReaderClass) : ReaderM (Option (List UInt8)) := do
  let len ← getUInt16 cls
  if len = 0xFFFF then
    return none
  else
    return some (← getBytes cls len)

/-! ## Specifications -/

/-- `r'` is the reader with `rest` ahead, of which `left` bytes are content. -/
structure Took (cls : ReaderClass) (r r' : DataReader) (rest : List UInt8) (left : ℤ) : Prop where
  moved : Moved r r'
  ready : Ready cls r' r'.dataPtr rest left

/-- The buffer has the room that any load needs. -/
def Roomy (r : DataReader) : Prop := 0x400 ≤ r.bufferEnd - r.bufferStart

variable {cls : ReaderClass} {r r' : DataReader} {rest data : List UInt8} {left : ℤ}

theorem Moved.roomy (h : Moved r r') : Roomy r' ↔ Roomy r := by
  obtain ⟨_, _, _, _, _, _, _, _, rfl⟩ := h
  rfl

theorem Roomy.hasBuffer (h : Roomy r) : HasBuffer r := by
  rw [Roomy] at h
  rw [HasBuffer]
  omega

theorem Roomy.hasRoom (h : Roomy r) (skip : Bool) {size : ℤ} (hsize : size ≤ 0x200) : HasRoom cls skip size r := by
  have hle : contiguous cls skip size ≤ 0x400 := by
    simp only [contiguous, headerRequest, chunkHeaderSizeMax]
    split <;> split <;> omega
  exact hle.trans h

theorem Roomy.hasRoom_skip (h : Roomy r) (size : ℤ) : HasRoom cls true size r :=
  Reader.hasRoom_skip h size

theorem Took.trans {r'' : DataReader} {rest' : List UInt8} {left' : ℤ} (h : Took cls r r' rest left)
    (h' : Took cls r' r'' rest' left') : Took cls r r'' rest' left' :=
  ⟨h.moved.trans h'.moved, h'.ready⟩

theorem Took.refl (h : Ready cls r r.dataPtr rest left) : Took cls r r rest left := ⟨.refl r, h⟩

/-- There are `size` bytes ahead, all of them content. -/
def Within (cls : ReaderClass) (rest : List UInt8) (left size : ℤ) : Prop := ¬ Exceeds cls rest left size

theorem within_iff {size : ℤ} : Within cls rest left size ↔ size ≤ rest.length ∧ (cls.isMsg → size ≤ left) := by
  simp only [Within, Exceeds, not_or, not_and, not_lt]

/-- The rule for all loads: the value is that of the next bytes. -/
theorem load_spec {α : Type} (value : List UInt8 → α) {n : ℕ} (hn : n ≤ 0x200)
    (h : Ready cls r r.dataPtr rest left) (hroomy : Roomy r) :
    wp (do let p ← bytes cls n; let r ← get; return value (ByteMemory.bytes r.mem p n))
      (fun found r' ↦ found = value (rest.take n) ∧ Took cls r r' (rest.drop n) (left - n) ∧
        Within cls rest left n)
      (fun _ _ ↦ ¬ Within cls rest left n) r := by
  apply wp_call (bytes_spec h hroomy.hasBuffer)
  · intro p r' h'
    obtain ⟨hmoved, hready, hbytes, hwithin⟩ := h'
    rw [wp_bind, wp_get, wp_pure]
    exact ⟨congrArg value hbytes, ⟨hmoved, hready⟩, hwithin⟩
  · intro _ _ h'
    rcases h' with hexceeds | hsmall
    · exact fun hwithin ↦ hwithin hexceeds
    · exact absurd (hroomy.hasRoom false (by omega)) hsmall

theorem loadBE_spec {n : ℕ} (hn : n ≤ 0x200) (h : Ready cls r r.dataPtr rest left) (hroomy : Roomy r) :
    wp (loadBE cls n)
      (fun value r' ↦ value = ofBigEndian (rest.take n) ∧ Took cls r r' (rest.drop n) (left - n) ∧
        Within cls rest left n)
      (fun _ _ ↦ ¬ Within cls rest left n) r :=
  load_spec ofBigEndian hn h hroomy

theorem loadLE_spec {n : ℕ} (hn : n ≤ 0x200) (h : Ready cls r r.dataPtr rest left) (hroomy : Roomy r) :
    wp (loadLE cls n)
      (fun value r' ↦ value = ofLittleEndian (rest.take n) ∧ Took cls r r' (rest.drop n) (left - n) ∧
        Within cls rest left n)
      (fun _ _ ↦ ¬ Within cls rest left n) r :=
  load_spec ofLittleEndian hn h hroomy

/-! ## Decoding what was encoded -/

/-- The program takes `data`, whatever follows it, and returns `value`. -/
def Decodes {α : Type} (cls : ReaderClass) (program : ReaderM α) (data : List UInt8) (value : α) : Prop :=
  ∀ r rest left, Ready cls r r.dataPtr (data ++ rest) left → (cls.isMsg → (data.length : ℤ) ≤ left) →
    Roomy r → wp program
      (fun found r' ↦ found = value ∧ Took cls r r' rest (left - data.length)) (fun _ _ ↦ False) r

theorem decodes_pure {α : Type} (value : α) : Decodes cls (pure value) [] value := by
  intro r rest left h _ _
  rw [wp_pure, List.length_nil, Nat.cast_zero, Int.sub_zero]
  exact ⟨rfl, .refl h⟩

/-- One after the other. -/
theorem Decodes.bind {α β : Type} {program : ReaderM α} {next : α → ReaderM β} {data data' : List UInt8}
    {value : α} {value' : β} (h : Decodes cls program data value)
    (hnext : Decodes cls (next value) data' value') :
    Decodes cls (program >>= next) (data ++ data') value' := by
  intro r rest left hready hleft hroomy
  rw [List.length_append] at hleft ⊢
  rw [List.append_assoc] at hready
  apply wp_call (h r _ left hready (fun hmsg ↦ by have := hleft hmsg; omega) hroomy)
  · intro found r₁ h₁
    obtain ⟨rfl, htook⟩ := h₁
    apply wp_mono (hnext r₁ rest _ htook.ready (fun hmsg ↦ by have := hleft hmsg; omega)
      (htook.moved.roomy.mpr hroomy))
    · intro found' r₂ h₂
      obtain ⟨rfl, htook'⟩ := h₂
      have hsame : left - (data.length : ℤ) - (data'.length : ℤ) = left - (data.length + data'.length : ℕ) := by
        omega
      rw [hsame] at htook'
      exact ⟨rfl, htook.trans htook'⟩
    · exact fun _ _ ↦ id
  · exact fun _ _ ↦ id

/-- The same, with nothing more to be taken. -/
theorem Decodes.map {α β : Type} {program : ReaderM α} {data : List UInt8} {value : α}
    (h : Decodes cls program data value) (f : α → β) :
    Decodes cls (do return f (← program)) data (f value) := by
  have hbind : Decodes cls (program >>= fun found ↦ pure (f found)) (data ++ []) (f value) :=
    h.bind (decodes_pure (f value))
  rwa [List.append_nil] at hbind

theorem decodes_loadBE {n value : ℕ} (hn : n ≤ 0x200) (hvalue : value < 256 ^ n) :
    Decodes cls (loadBE cls n) (bigEndian n value) value := by
  intro r rest left h hleft hroomy
  have hlength := length_bigEndian n value
  rw [hlength] at hleft ⊢
  have hwithin : Within cls (bigEndian n value ++ rest) left n := by
    rw [within_iff, List.length_append, hlength]
    exact ⟨by omega, hleft⟩
  apply wp_mono (loadBE_spec hn h hroomy)
  · intro found r' h'
    rw [List.take_left' hlength, List.drop_left' hlength, ofBigEndian_bigEndian hvalue] at h'
    exact ⟨h'.1, h'.2.1⟩
  · exact fun _ _ hnot ↦ hnot hwithin

theorem decodes_getBytes (data : List UInt8) : Decodes cls (getBytes cls data.length) data data := by
  intro r rest left h hleft hroomy
  have hwithin : Within cls (data ++ rest) left data.length := by
    rw [within_iff, List.length_append]
    exact ⟨by omega, hleft⟩
  apply wp_mono (getBytes_spec h hroomy.hasBuffer)
  · intro found r' h'
    rw [List.take_left, List.drop_left] at h'
    exact ⟨h'.2.2.1, h'.1, h'.2.1⟩
  · intro _ _ h'
    rcases h' with hexceeds | hsmall
    · exact hwithin hexceeds
    · exact hsmall (hroomy.hasRoom false (by decide))

theorem decodes_getByte (byte : UInt8) : Decodes cls (getByte cls) [byte] byte.toNat := by
  rw [← bigEndian_one byte]
  exact decodes_loadBE (by decide) byte.toNat_lt

theorem unsigned_lt (size : ℕ) (value : ℤ) : unsigned size value < 256 ^ size := by
  have hbase : (256 : ℤ) ^ size = 2 ^ (8 * size) := by rw [Int.pow_mul]; rfl
  have hpositive : (0 : ℤ) < 2 ^ (8 * size) := Int.pow_pos (by decide)
  have hlt := Int.emod_lt_of_pos value hpositive
  have hnonneg := Int.emod_nonneg value hpositive.ne'
  rw [unsigned, Int.toNat_lt hnonneg]
  push_cast
  rw [hbase]
  exact hlt

theorem signed_unsigned {size : ℕ} {value : ℤ} (hsize : 0 < size) (hlow : -2 ^ (8 * size - 1) ≤ value)
    (hhigh : value < 2 ^ (8 * size - 1)) : signed size (unsigned size value) = value := by
  have hdouble : (2 : ℤ) ^ (8 * size) = 2 * 2 ^ (8 * size - 1) := by
    rw [← pow_succ']
    congr 1
    omega
  have hcast : ((2 ^ (8 * size - 1) : ℕ) : ℤ) = 2 ^ (8 * size - 1) := by push_cast; rfl
  rw [unsigned, signed, hdouble]
  generalize (2 : ℤ) ^ (8 * size - 1) = half at *
  generalize 2 ^ (8 * size - 1) = bound at *
  rcases Int.lt_or_le value 0 with hneg | hnonneg
  · have hmod : value % (2 * half) = value + 2 * half := by
      rw [← Int.add_emod_right, Int.emod_eq_of_lt (by omega) (by omega)]
    rw [hmod, if_neg (by omega)]
    omega
  · have hmod : value % (2 * half) = value := Int.emod_eq_of_lt hnonneg (by omega)
    rw [hmod, if_pos (by omega)]
    omega

theorem decodes_getInt64 {value : ℤ} (hlow : -2 ^ 63 ≤ value) (hhigh : value < 2 ^ 63) :
    Decodes cls (getInt64 cls) (bigEndian 8 (unsigned 8 value)) value := by
  have hload : Decodes cls (getUInt64 cls) (bigEndian 8 (unsigned 8 value)) (unsigned 8 value) :=
    decodes_loadBE (by decide) (unsigned_lt 8 value)
  have hvalue := @signed_unsigned 8 value (by decide) hlow hhigh
  have hdecodes := hload.map (signed 8)
  rwa [hvalue] at hdecodes

/-- A string as it is sent. -/
def encodeUTF8 (data : List UInt8) : List UInt8 := bigEndian 2 data.length ++ data

@[simp]
theorem length_encodeUTF8 (data : List UInt8) : (encodeUTF8 data).length = 2 + data.length := by
  rw [encodeUTF8, List.length_append, length_bigEndian]

theorem decodes_getUTF8 {data : List UInt8} (hdata : data.length < 0xFFFF) :
    Decodes cls (getUTF8 cls) (encodeUTF8 data) (some data) := by
  have hfits : data.length < 256 ^ 2 := by omega
  have hshort : ¬ data.length = 0xFFFF := by omega
  apply (decodes_loadBE (by decide) hfits).bind
  rw [if_neg hshort]
  exact (decodes_getBytes data).map some

/-! ## Between two messages -/

/-- No message is open, and `rest` is ahead. -/
structure Ahead (cls : ReaderClass) (r : DataReader) (rest : List UInt8) : Prop where
  ready : ∃ left, Ready cls r r.dataPtr rest left ∧ (cls.isMsg → (rest.length : ℤ) ≤ left)
  roomy : Roomy r
  limit : r.bufferEnd + rest.length ≤ noContentLimit

/-- What is taken is behind. -/
theorem Ahead.took (h : Ahead cls r (data ++ rest)) :
    ∃ left, Ready cls r r.dataPtr (data ++ rest) left ∧ (cls.isMsg → (data.length : ℤ) ≤ left) ∧
      ∀ r', Took cls r r' rest (left - data.length) → Ahead cls r' rest := by
  obtain ⟨left, hready, hleft⟩ := h.ready
  have hlimit := h.limit
  rw [List.length_append] at hleft hlimit
  refine ⟨left, hready, fun hmsg ↦ by have := hleft hmsg; omega, fun r' htook ↦ ?_⟩
  have hend := htook.moved.buffer_eq.2
  refine ⟨⟨_, htook.ready, fun hmsg ↦ ?_⟩, htook.moved.roomy.mpr h.roomy, ?_⟩
  · have := hleft hmsg
    omega
  · rw [hend]
    omega

theorem Ahead.decode {α : Type} {program : ReaderM α} {value : α} (h : Ahead cls r (data ++ rest))
    (hdecodes : Decodes cls program data value) :
    wp program (fun found r' ↦ found = value ∧ Ahead cls r' rest) (fun _ _ ↦ False) r := by
  obtain ⟨left, hready, hleft, hahead⟩ := h.took
  apply wp_mono (hdecodes r rest left hready hleft h.roomy)
  · exact fun found r' h' ↦ ⟨h'.1, hahead r' h'.2⟩
  · exact fun _ _ ↦ id

/-- With nothing ahead, a load throws. -/
theorem Ahead.load_nil {n : ℕ} (hn : n ≤ 0x200) (hpositive : 0 < n) (h : Ahead cls r []) :
    wp (loadBE cls n) (fun _ _ ↦ False) (fun _ _ ↦ True) r := by
  obtain ⟨left, hready, -⟩ := h.ready
  apply wp_mono (loadBE_spec hn hready h.roomy)
  · intro _ _ h'
    have hwithin := (within_iff.mp h'.2.2).1
    rw [List.length_nil] at hwithin
    omega
  · exact fun _ _ _ ↦ trivial

/-- All that is buffered may be read. -/
theorem Ahead.between (h : Ahead cls r rest) : Between cls r rest := by
  obtain ⟨left, hready, hleft⟩ := h.ready
  refine ⟨hready.at_rest, ?_⟩
  have hdataEnd := hready.dataEnd_eq
  have hle := hready.at_rest.le_available
  obtain ⟨count, hcount⟩ : ∃ count : ℕ, available cls r = r.dataPtr + count :=
    ⟨(available cls r - r.dataPtr).toNat, by omega⟩
  have hlength := (hready.at_rest.bytes_eq (Int.le_of_eq hcount.symm)).2
  by_cases hmsg : cls.isMsg
  · have hcontent := (hready.contentEnd_eq hmsg).1
    have henough := hleft hmsg
    rw [if_pos hmsg] at hdataEnd
    omega
  · rwa [if_neg hmsg] at hdataEnd

/-- All that is ahead is buffered or still to come. -/
theorem Ahead.length_le (h : Ahead cls r rest) : rest.length ≤ unread r r.dataPtr := by
  obtain ⟨left, hready, -⟩ := h.ready
  have hholds : ∃ raw, Holds r r.dataPtr raw ∧ rest.length ≤ raw.length := by
    by_cases hchunked : cls.isChunked
    · obtain ⟨raw, hraw, head, chunks, -, rfl, rfl⟩ := (at_chunked hchunked).mp hready.at_rest
      refine ⟨_, hraw, ?_⟩
      rw [List.length_append, List.length_append]
      exact Nat.add_le_add_left (length_payloadOf_le chunks) _
    · exact ⟨rest, (at_plain hchunked).mp hready.at_rest, le_rfl⟩
  obtain ⟨raw, hraw, hle⟩ := hholds
  have hlength := hraw.length_eq
  have hplace := hraw.le_streamDataEnd
  rw [unread]
  omega

/-- A message of `n` bytes is entered. -/
theorem Ahead.setMessageSize {n : ℕ} (hmsg : cls.isMsg) (h : Ahead cls r rest) (hn : n ≤ rest.length) :
    wp (Reader.setMessageSize n)
      (fun _ r' ↦ InMessage cls r' rest n 0 n ∧ r'.depth = 0 ∧ r'.bufferEnd = r.bufferEnd)
      (fun _ _ ↦ False) r := by
  have hlimit := h.limit
  have hplaced : Placed r n := ⟨h.roomy, by omega⟩
  have hspec := h.between.setMessageSize hmsg hplaced
  rw [Reader.setMessageSize, wp_modify] at hspec ⊢
  exact ⟨hspec, rfl, rfl⟩

theorem InMessage.took {body : List UInt8} {n consumed left : ℕ} {r' : DataReader}
    (h : InMessage cls r body n consumed left) (hbody : body.drop consumed = data ++ rest)
    (hleft : data.length ≤ left) (htook : Took cls r r' rest (left - data.length)) :
    InMessage cls r' body n (consumed + data.length) (left - data.length) := by
  apply h.take htook.moved _ hleft
  rw [hbody, List.drop_left]
  exact htook.ready

/-- Inside a message the content is read. -/
theorem InMessage.decode {α : Type} {program : ReaderM α} {value : α} {body : List UInt8}
    {n consumed left : ℕ} (h : InMessage cls r body n consumed left)
    (hbody : body.drop consumed = data ++ rest) (hleft : data.length ≤ left)
    (hdecodes : Decodes cls program data value) :
    wp program (fun found r' ↦ found = value ∧ Moved r r' ∧
      InMessage cls r' body n (consumed + data.length) (left - data.length)) (fun _ _ ↦ False) r := by
  have hready := h.ready
  rw [hbody] at hready
  apply wp_mono (hdecodes r rest left hready (fun _ ↦ by omega) h.hasRoom)
  · exact fun found r' h' ↦ ⟨h'.1, h'.2.moved, h.took hbody hleft h'.2⟩
  · exact fun _ _ ↦ id

theorem AtNextMessage.ahead (h : AtNextMessage cls r' rest) (hmsg : cls.isMsg) (hbuffer : SameBuffer r r')
    (hroomy : Roomy r) (hlimit : r.bufferEnd + rest.length ≤ noContentLimit) : Ahead cls r' rest := by
  obtain ⟨hbetween, hdepth, hend⟩ := h
  have hplace := hbetween.at_body.le_bufferEnd
  rw [hbuffer.bufferEnd_eq] at hplace
  refine ⟨⟨noContentLimit - r'.dataPtr, ⟨hbetween.at_body, ?_, fun _ ↦ ⟨?_, ?_, ?_⟩⟩, fun _ ↦ ?_⟩, ?_, ?_⟩
  · rw [if_pos hmsg, hend, hbetween.dataEnd_eq]
    omega
  · rw [hend]
    omega
  · omega
  · exact hbuffer.dataEnd0_eq.trans hbetween.dataEnd_eq
  · omega
  · rwa [Roomy, hbuffer.bufferStart_eq, hbuffer.bufferEnd_eq]
  · rwa [hbuffer.bufferEnd_eq]

/-- After `nextMessage` all that is left of the message is behind. -/
theorem InMessage.nextMessage {body : List UInt8} {n consumed left : ℕ}
    (h : InMessage cls r body n consumed left) (hcomplete : n ≤ body.length)
    (hlimit : r.bufferEnd + body.length ≤ noContentLimit)
    (hclosed : r.depth = 0 ∨ eOfsAt r r.depth = eOfsAt r 0) :
    wp (Reader.nextMessage cls) (fun _ r' ↦ Ahead cls r' (body.drop n)) (fun _ _ ↦ False) r := by
  have hsum := (unwound_eq_heldBack_iff h.depth_le).mpr hclosed
  have htotal := h.total
  have hlast : consumed + (left + unwound (eOfsAt r) r.depth) = n := by omega
  have hspec := nextMessage_spec h
  rw [hlast, List.length_drop] at hspec
  apply wp_mono hspec
  · intro _ r' h'
    apply h'.1.ahead h.isMsg h'.2.2 h.hasRoom
    rw [List.length_drop]
    omega
  · exact fun _ _ hlt ↦ by omega

/-- A reader that was just constructed is between two messages. -/
theorem messageReader_ahead {wire : List UInt8} (hwire : wire.length < 2 ^ 32) :
    Ahead .msg (messageReader wire) wire := by
  have hbetween := messageReader_between wire
  have hlimit : (4096 : ℤ) + 0 ≤ noContentLimit := by decide
  refine ⟨⟨noContentLimit - 4096, ⟨hbetween.at_body, ?_, fun _ ↦ ⟨?_, ?_, ?_⟩⟩, fun _ ↦ ?_⟩, ?_, ?_⟩
  · exact (min_eq_right hlimit).symm
  · simp [messageReader, constructBase]
  · decide
  · rfl
  · simp only [noContentLimit]
    omega
  · simp [Roomy, messageReader, constructBase]
  · simp only [messageReader, constructBase, noContentLimit]
    omega

end DxApi.Reader
