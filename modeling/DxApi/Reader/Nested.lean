import DxApi.Reader.Packed
import DxApi.Reader.Skips

/-!
# Nested containers

The content of a message is a list of fields, and some of them are containers with a content of their
own. A decoder stands before some field of the innermost open container; of every content around it, it
knows what is left behind the container it is in. Its calls read or skip the field that is next, open
the container that is next, or close the innermost one wherever they are in it.
-/

namespace DxApi.Reader

open Exec ByteMemory ByteOrder Writer

/-! ## Leaves -/

/-- The signed integers of fixed width. -/
inductive IntType
  | int8
  | int16
  | int32
  | int48
  | int64
  deriving DecidableEq, Repr

deriving instance DecidableEq, Repr for PackedType

namespace IntType

def size : IntType → ℕ
  | int8 => 1
  | int16 => 2
  | int32 => 4
  | int48 => 6
  | int64 => 8

def read : IntType → ReaderClass → ReaderM ℤ
  | int8 => readInt8
  | int16 => readInt16
  | int32 => readInt32
  | int48 => readInt48
  | int64 => readInt64

def skip : IntType → ReaderClass → ReaderM Unit
  | int8 => skipInt8
  | int16 => skipInt16
  | int32 => skipInt32
  | int48 => skipInt48
  | int64 => skipInt64

def null (type : IntType) : ℤ := -2 ^ (8 * type.size - 1)

def Fits (type : IntType) (value : ℤ) : Prop := -2 ^ (8 * type.size - 1) ≤ value ∧ value < 2 ^ (8 * type.size - 1)

instance (type : IntType) (value : ℤ) : Decidable (type.Fits value) := inferInstanceAs (Decidable (_ ∧ _))

variable (type : IntType)

theorem read_eq : type.read = fun cls ↦ unlessEnd type.null (loadSigned cls type.size) := by cases type <;> rfl

theorem skip_eq : type.skip = fun cls ↦ skipBytes cls type.size := by cases type <;> rfl

theorem size_pos : 0 < type.size := by cases type <;> decide

theorem size_le : type.size ≤ 0x200 := by cases type <;> decide

end IntType

/-- What a leaf reads as. -/
inductive Value
  | nat (value : ℕ)
  | int (value : ℤ)
  | string (value : Option (List UInt8))
  deriving DecidableEq, Repr

/-- The calls that read a leaf. -/
inductive LeafKind
  | uint8
  | int (type : IntType)
  | packed (type : PackedType)
  | utf8
  | ascii
  deriving DecidableEq, Repr

namespace LeafKind

def read (kind : LeafKind) (cls : ReaderClass) : ReaderM Value :=
  match kind with
  | uint8 => do return .nat (← readUInt8 cls)
  | int type => do return .int (← type.read cls)
  | packed type => do return .nat (← type.read cls)
  | utf8 => do return .string (← readUTF8 cls)
  | ascii => do return .string (← readAscii cls)

def skip : LeafKind → ReaderClass → ReaderM Unit
  | uint8 => skipInt8
  | int type => type.skip
  | packed type => type.skip
  | utf8 => skipUTF8
  | ascii => skipAscii

/-- What is read at the end of the content. -/
def null : LeafKind → Value
  | uint8 => .nat 0x80
  | int type => .int type.null
  | packed type => .nat type.null
  | utf8 => .string none
  | ascii => .string none

end LeafKind

/-- A string that is not null, of which the length is not the one that stands for null. -/
def Text : Type := {data : List UInt8 // data.length < 0xFFFF}

def encodeText : Option Text → List UInt8
  | none => bigEndian 2 0xFFFF
  | some text => encodeUTF8 text.1

/-- A field that is not a container, of a value that its type has. -/
inductive Leaf
  | uint8 (value : UInt8)
  | int (type : IntType) (value : ℤ) (hvalue : type.Fits value)
  | packed (type : PackedType) (value : ℕ) (hvalue : type.Fits value)
  | utf8 (text : Option Text)
  | ascii (text : Option Text)

namespace Leaf

def kind : Leaf → LeafKind
  | uint8 _ => .uint8
  | int type _ _ => .int type
  | packed type _ _ => .packed type
  | utf8 _ => .utf8
  | ascii _ => .ascii

def value : Leaf → Value
  | uint8 value => .nat value.toNat
  | int _ value _ => .int value
  | packed _ value _ => .nat value
  | utf8 text => .string (text.map Subtype.val)
  | ascii text => .string (text.map Subtype.val)

def encode : Leaf → List UInt8
  | uint8 value => [value]
  | int type value _ => bigEndian type.size (unsigned type.size value)
  | packed type value _ => type.encode (type.code value)
  | utf8 text => encodeText text
  | ascii text => encodeText text

end Leaf

section

variable {cls : ReaderClass} {data : List UInt8}

theorem readsField_int (type : IntType) {value : ℤ} (hvalue : type.Fits value) :
    ReadsField type.read (bigEndian type.size (unsigned type.size value)) value := by
  have hload (cls : ReaderClass) :
      Decodes cls (loadSigned cls type.size) (bigEndian type.size (unsigned type.size value)) value := by
    have hsigned := (@decodes_loadBE cls _ _ type.size_le (unsigned_lt type.size value)).map (signed type.size)
    rwa [signed_unsigned type.size_pos hvalue.1 hvalue.2] at hsigned
  rw [type.read_eq]
  exact readsField_of_decodes type.null hload

theorem readsField_skipBytes {size : ℕ} (hdata : data.length = size) :
    ReadsField (fun cls ↦ skipBytes cls size) data () := by
  rw [← hdata]
  exact readsField_of_decodes () fun _ ↦ decodes_skip data

theorem readsField_text (text : Option Text) : ReadsField readUTF8 (encodeText text) (text.map Subtype.val) := by
  apply readsField_of_decodes none
  intro cls
  cases text with
  | none =>
    change Decodes cls (getUTF8 cls) _ none
    rw [encodeText, ← List.append_nil (bigEndian 2 0xFFFF)]
    apply (decodes_loadBE (by decide) (by decide)).bind
    rw [if_pos rfl]
    exact decodes_pure none
  | some text => exact decodes_getUTF8 text.2

theorem readsField_skipText (text : Option Text) : ReadsField skipUTF8 (encodeText text) () := by
  apply readsField_of_decodes ()
  intro cls
  cases text with
  | none =>
    rw [encodeText, ← List.append_nil (bigEndian 2 0xFFFF)]
    apply (decodes_loadBE (by decide) (by decide)).bind
    rw [if_pos rfl]
    exact decodes_skip []
  | some text =>
    have hlength : text.1.length < 256 ^ 2 := text.2.trans (by decide)
    apply (decodes_loadBE (by decide) hlength).bind
    rw [if_neg text.2.ne]
    exact decodes_skip text.1

/-- A leaf is read as its value by the call of its kind. -/
theorem Leaf.reads (leaf : Leaf) : ReadsField leaf.kind.read leaf.encode leaf.value := by
  cases leaf with
  | uint8 value => exact (readsField_of_decodes 0x80 fun _ ↦ decodes_getByte value).map Value.nat
  | int type value hvalue => exact (readsField_int type hvalue).map Value.int
  | packed type value hvalue => exact (PackedType.survives_encode hvalue).reads.map Value.nat
  | utf8 text => exact (readsField_text text).map Value.string
  | ascii text => exact (readsField_text text).map Value.string

theorem Leaf.skips (leaf : Leaf) : ReadsField leaf.kind.skip leaf.encode () := by
  cases leaf with
  | uint8 value => exact readsField_skipBytes rfl
  | int type value hvalue =>
    rw [kind, LeafKind.skip, type.skip_eq]
    exact readsField_skipBytes (length_bigEndian _ _)
  | packed type value hvalue => exact (PackedType.survives_encode hvalue).skips
  | utf8 text => exact readsField_skipText text
  | ascii text => exact readsField_skipText text

theorem length_encodeText_pos (text : Option Text) : 0 < (encodeText text).length := by
  cases text with
  | none => decide
  | some text =>
    rw [encodeText, length_encodeUTF8]
    omega

theorem Leaf.length_encode_pos (leaf : Leaf) : 0 < leaf.encode.length := by
  cases leaf with
  | uint8 value => exact Nat.zero_lt_one
  | int type value hvalue =>
    rw [encode, length_bigEndian]
    exact type.size_pos
  | packed type value hvalue =>
    rw [encode, PackedType.length_encode]
    exact Nat.succ_pos _
  | utf8 text => exact length_encodeText_pos text
  | ascii text => exact length_encodeText_pos text

end

/-! ## Trees and places in them -/

/-- The fields of a content from some place on: leaves, null containers, and containers with a content. -/
inductive Content
  | done
  | leaf (field : Leaf) (next : Content)
  | null (next : Content)
  | container (kind : Kind) (content next : Content)

/-- What stands before the fields of a container: the number of items, or the index of the type. -/
def openingBytes : Kind → List UInt8
  | .array nItems => packedUInt22 nItems
  | .object typeIndex => [typeIndex]

namespace Content

/-- The reference encoding. -/
def encode : Content → List UInt8
  | done => []
  | leaf field next => field.encode ++ next.encode
  | null next => packedUInt22 0 ++ next.encode
  | container kind content next =>
    packedUInt22 (openingBytes kind ++ content.encode).length ++ (openingBytes kind ++ content.encode) ++ next.encode

/-- How deep containers are nested. -/
def nesting : Content → ℕ
  | done => 0
  | leaf _ next => next.nesting
  | null next => next.nesting
  | container _ content next => max (content.nesting + 1) next.nesting

/-- The lengths and the counts have at most twenty-two bits. -/
def Short : Content → Prop
  | done => True
  | leaf _ next => next.Short
  | null next => next.Short
  | container kind content next =>
    (openingBytes kind ++ content.encode).length < 2 ^ 22 ∧ (∀ nItems, kind = .array nItems → nItems < 2 ^ 22) ∧
      content.Short ∧ next.Short

end Content

/-- A container that is open: its kind, and the fields behind it in the content around it. -/
structure Frame where
  isArray : Bool
  behind : Content

/-- A place in the tree: the fields that are left of the innermost open container, and the open containers,
the innermost first. -/
structure Position where
  content : Content
  frames : List Frame

/-- What a call gives to the decoder. -/
inductive Outcome
  | value (value : Value)
  | count (nItems : Option ℕ)
  | typeIndex (index : Option UInt8)
  | finished
  deriving DecidableEq, Repr

/-- A call of a decoder. -/
inductive NestedCall
  | read (kind : LeafKind)
  | skip (kind : LeafKind)
  | readArrayStart
  | readObjectStart
  | readArrayEnd
  | readObjectEnd
  | skipNested
  deriving DecidableEq, Repr

def NestedCall.run (cls : ReaderClass) : NestedCall → ReaderM Outcome
  | .read kind => do return .value (← kind.read cls)
  | .skip kind => do
    kind.skip cls
    return .finished
  | .readArrayStart => do return .count (← Reader.readArrayStart cls)
  | .readObjectStart => do return .typeIndex (← Reader.readObjectStart cls)
  | .readArrayEnd => do
    closeContainer cls true
    return .finished
  | .readObjectEnd => do
    closeContainer cls false
    return .finished
  | .skipNested => do
    Reader.skipNested cls
    return .finished

def runNested (cls : ReaderClass) : List NestedCall → ReaderM (List Outcome)
  | [] => return []
  | call :: calls => do
    let outcome ← call.run cls
    return outcome :: (← runNested cls calls)

namespace Position

/-- A leaf is read by the calls of its kind. At the end of the content there is nothing to be moved over. -/
def read (kind : LeafKind) (position : Position) : Option (Outcome × Position) :=
  match position.content with
  | .done => some (.value kind.null, position)
  | .leaf field next => if field.kind = kind then some (.value field.value, { position with content := next }) else none
  | _ => none

def skip (kind : LeafKind) (position : Position) : Option (Outcome × Position) :=
  match position.content with
  | .done => some (.finished, position)
  | .leaf field next => if field.kind = kind then some (.finished, { position with content := next }) else none
  | _ => none

/-- What is given at a container that is not there or null. -/
def nullOutcome (isArray : Bool) : Outcome := if isArray then .count none else .typeIndex none

def openingOutcome : Kind → Outcome
  | .array nItems => .count (some nItems)
  | .object typeIndex => .typeIndex (some typeIndex)

/-- A container is entered by the call of its kind. -/
def enter (isArray : Bool) (position : Position) : Option (Outcome × Position) :=
  match position.content with
  | .done => some (nullOutcome isArray, position)
  | .null next => some (nullOutcome isArray, { position with content := next })
  | .container kind content next =>
    if kind.isArray = isArray then some (openingOutcome kind, ⟨content, ⟨isArray, next⟩ :: position.frames⟩) else none
  | .leaf _ _ => none

/-- The innermost container is left, whatever is left of it. -/
def leave (isArray : Bool) (position : Position) : Option (Outcome × Position) :=
  match position.frames with
  | [] => none
  | frame :: frames => if frame.isArray = isArray then some (.finished, ⟨frame.behind, frames⟩) else none

def skipNested (position : Position) : Option (Outcome × Position) :=
  match position.content with
  | .done => some (.finished, position)
  | .null next => some (.finished, { position with content := next })
  | .container _ _ next => some (.finished, { position with content := next })
  | .leaf _ _ => none

def step (position : Position) : NestedCall → Option (Outcome × Position)
  | .read kind => position.read kind
  | .skip kind => position.skip kind
  | .readArrayStart => position.enter true
  | .readObjectStart => position.enter false
  | .readArrayEnd => position.leave true
  | .readObjectEnd => position.leave false
  | .skipNested => position.skipNested

/-- The calls one after the other: properly nested, each at a field of its kind. -/
def run (position : Position) : List NestedCall → Option (List Outcome × Position)
  | [] => some ([], position)
  | call :: calls =>
    (position.step call).bind fun result ↦
      (result.2.run calls).map fun results ↦ (result.1 :: results.1, results.2)

/-- The bytes that are ahead. -/
def ahead (position : Position) : List UInt8 :=
  position.content.encode ++ position.frames.flatMap fun frame ↦ frame.behind.encode

end Position

/-- The limits of the open containers: for each, how much of the content around it is behind it. -/
def Limits : List Frame → (ℕ → ℕ) → (ℕ → Bool) → Prop
  | [], _, _ => True
  | frame :: frames, eOfs, containerIsArray =>
    eOfs frames.length = frame.behind.encode.length ∧ containerIsArray frames.length = frame.isArray ∧
      Limits frames eOfs containerIsArray

/-- Every content that is left fits into the depth that is left. -/
def FramesFit : List Frame → Prop
  | [] => True
  | frame :: frames =>
    frame.behind.Short ∧ frame.behind.nesting + frames.length ≤ readerMaxNestedObjects ∧ FramesFit frames

structure Position.Fits (position : Position) : Prop where
  short : position.content.Short
  nesting_le : position.content.nesting + position.frames.length ≤ readerMaxNestedObjects
  frames : FramesFit position.frames

/-- The reader is at a place of the message: the bytes ahead of it are those of the tree, its content ends
with the innermost open container, and what it remembers are the limits of the others. -/
structure Reached (cls : ReaderClass) (message : List UInt8) (n : ℕ) (behind : List UInt8) (position : Position)
    (r : DataReader) : Prop where
  place : ∃ consumed, InMessage cls r message n consumed position.content.encode.length ∧
    message.drop consumed = position.ahead ++ behind
  depth_eq : r.depth = position.frames.length
  limits : Limits position.frames r.eOfs r.containerIsArray

section

variable {cls : ReaderClass} {r r' : DataReader} {message behind data rest : List UInt8} {n consumed left : ℕ}
  {position position' : Position} {outcome : Outcome}

/-! ## What the calls do to the limits -/

theorem Limits.of_same {frames : List Frame} (h : Limits frames r.eOfs r.containerIsArray) (hsame : SameNesting r r') :
    Limits frames r'.eOfs r'.containerIsArray := by
  rw [hsame.eOfs_eq, hsame.kinds_eq]
  exact h

/-- The slots above the open containers do not count. -/
theorem Limits.update {frames : List Frame} {eOfs : ℕ → ℕ} {kinds : ℕ → Bool} {i : ℕ} (h : Limits frames eOfs kinds)
    (hi : frames.length ≤ i) (held : ℕ) (isArray : Bool) :
    Limits frames (Function.update eOfs i held) (Function.update kinds i isArray) := by
  induction frames with
  | nil => trivial
  | cons frame frames ih =>
    obtain ⟨hheld, hkind, hrest⟩ := h
    rw [List.length_cons] at hi
    refine ⟨?_, ?_, ih hrest (by omega)⟩
    · rw [Function.update_of_ne (by omega), hheld]
    · rw [Function.update_of_ne (by omega), hkind]

theorem Opened.sameNesting {isArray : Bool} {held : ℕ} {r₁ : DataReader} (h : Opened isArray held r r₁)
    (hsame : SameNesting r₁ r') : Opened isArray held r r' :=
  ⟨hsame.depth_eq.trans h.depth_eq, hsame.eOfs_eq.trans h.eOfs_eq, hsame.kinds_eq.trans h.kinds_eq⟩

/-- Between two fields of the same content. -/
theorem Reached.move (h : Reached cls message n behind position r) (hframes : position'.frames = position.frames)
    (hsame : SameNesting r r')
    (hin : InMessage cls r' message n consumed position'.content.encode.length)
    (hahead : message.drop consumed = position'.ahead ++ behind) : Reached cls message n behind position' r' := by
  refine ⟨⟨consumed, hin, hahead⟩, ?_, ?_⟩
  · rw [hsame.depth_eq, h.depth_eq, hframes]
  · rw [hframes]
    exact h.limits.of_same hsame

theorem drop_append_left (hdrop : message.drop consumed = data ++ rest) :
    message.drop (consumed + data.length) = rest := by
  rw [← List.drop_drop, hdrop, List.drop_left]

/-- Where the content goes on, a field is read. -/
theorem InMessage.readField {α : Type} {program : ReaderClass → ReaderM α} {value : α}
    (h : InMessage cls r message n consumed left) (hdata : message.drop consumed = data ++ rest)
    (hleft : data.length ≤ left) (hpositive : 0 < data.length) (hreads : ReadsField program data value) :
    wp (program cls)
      (fun found r' ↦ found = value ∧ SameNesting r r' ∧
        InMessage cls r' message n (consumed + data.length) (left - data.length)) (fun _ _ ↦ False) r := by
  have hend := h.contentEnd_eq
  have hmore : r.dataPtr ≠ r.contentEnd := by omega
  have hready := h.ready
  rw [hdata] at hready
  apply wp_mono (hreads cls r rest left hready (fun _ ↦ by omega) h.hasRoom hmore)
  · exact fun _ _ h' ↦ ⟨h'.1, h'.2.moved.sameNesting, h.took hdata hleft h'.2⟩
  · exact fun _ _ ↦ id

/-- The length of a container is read, if it has at most twenty-two bits. -/
theorem InMessage.readLength {length : ℕ} (h : InMessage cls r message n consumed left) (hshort : length < 2 ^ 22)
    (hdata : message.drop consumed = packedUInt22 length ++ rest) (hleft : (packedUInt22 length).length ≤ left) :
    wp (getPackedUInt22 cls)
      (fun found r' ↦ found = length ∧ SameNesting r r' ∧
        InMessage cls r' message n (consumed + (packedUInt22 length).length) (left - (packedUInt22 length).length))
      (fun _ _ ↦ False) r := by
  have hdecodes : Decodes cls (getPackedUInt22 cls) (packedUInt22 length) length := by
    rw [← packedCount_eq hshort]
    exact decodes_packedCount hshort
  apply wp_mono (h.decode hdata hleft hdecodes)
  · exact fun _ _ h' ↦ ⟨h'.1, h'.2.1.sameNesting, h'.2.2⟩
  · exact fun _ _ ↦ id

theorem length_packedUInt22_pos (value : ℕ) : 0 < (packedUInt22 value).length := by
  rw [packedUInt22]
  split
  · exact Nat.zero_lt_one
  · split
    · exact Nat.zero_lt_two
    · exact Nat.succ_pos 2

/-! ## Leaves are read and skipped -/

theorem LeafKind.read_atEnd (kind : LeafKind) (hend : r.dataPtr = r.contentEnd) :
    wp (kind.read cls) (fun found r' ↦ found = kind.null ∧ r' = r) (fun _ _ ↦ False) r := by
  cases kind with
  | uint8 => exact wp_bind.mpr (wp_atEnd hend ⟨rfl, rfl⟩)
  | int type =>
    rw [read, type.read_eq]
    exact wp_bind.mpr (wp_atEnd hend ⟨rfl, rfl⟩)
  | packed type => exact wp_bind.mpr (wp_atEnd hend ⟨rfl, rfl⟩)
  | utf8 => exact wp_bind.mpr (wp_atEnd hend ⟨rfl, rfl⟩)
  | ascii => exact wp_bind.mpr (wp_atEnd hend ⟨rfl, rfl⟩)

theorem LeafKind.skip_atEnd (kind : LeafKind) (hend : r.dataPtr = r.contentEnd) :
    wp (kind.skip cls) (fun _ r' ↦ r' = r) (fun _ _ ↦ False) r := by
  cases kind with
  | uint8 => exact wp_atEnd hend rfl
  | int type =>
    rw [skip, type.skip_eq]
    exact wp_atEnd hend rfl
  | packed type => exact wp_atEnd hend rfl
  | utf8 => exact wp_atEnd hend rfl
  | ascii => exact wp_atEnd hend rfl

/-- At the end of the innermost content. -/
theorem Reached.atEnd (h : Reached cls message n behind position r) (hdone : position.content = .done) :
    r.dataPtr = r.contentEnd := by
  obtain ⟨consumed, hin, -⟩ := h.place
  have hend := hin.contentEnd_eq
  rw [hdone, Content.encode, List.length_nil] at hend
  omega

/-- A leaf that is next is passed over by each of its calls. -/
theorem Reached.passLeaf {α : Type} {program : ReaderClass → ReaderM α} {value : α} {field : Leaf} {next : Content}
    (h : Reached cls message n behind position r) (hleaf : position.content = .leaf field next)
    (hreads : ReadsField program field.encode value) :
    wp (program cls)
      (fun found r' ↦ found = value ∧ Reached cls message n behind { position with content := next } r')
      (fun _ _ ↦ False) r := by
  obtain ⟨consumed, hin, hahead⟩ := h.place
  rw [hleaf, Content.encode, List.length_append] at hin
  rw [Position.ahead, hleaf, Content.encode, List.append_assoc, List.append_assoc] at hahead
  apply wp_mono (hin.readField hahead (by omega) field.length_encode_pos hreads)
  · intro found r' h'
    obtain ⟨hfound, hsame, hin'⟩ := h'
    rw [Nat.add_sub_cancel_left] at hin'
    refine ⟨hfound, h.move rfl hsame hin' ?_⟩
    rw [drop_append_left hahead, Position.ahead, List.append_assoc]
  · exact fun _ _ ↦ id

theorem Reached.read (h : Reached cls message n behind position r) {kind : LeafKind}
    (hstep : position.read kind = some (outcome, position')) :
    wp (kind.read cls) (fun found r' ↦ .value found = outcome ∧ Reached cls message n behind position' r')
      (fun _ _ ↦ False) r := by
  rw [Position.read] at hstep
  cases hcontent : position.content with
  | done =>
    rw [hcontent] at hstep
    cases hstep
    apply wp_mono (kind.read_atEnd (h.atEnd hcontent))
    · intro found r' h'
      rw [h'.1, h'.2]
      exact ⟨rfl, h⟩
    · exact fun _ _ ↦ id
  | leaf field next =>
    simp only [hcontent] at hstep
    by_cases hkind : field.kind = kind
    · rw [if_pos hkind] at hstep
      cases hstep
      rw [← hkind]
      apply wp_mono (h.passLeaf hcontent field.reads)
      · exact fun found _ h' ↦ ⟨congrArg Outcome.value h'.1, h'.2⟩
      · exact fun _ _ ↦ id
    · rw [if_neg hkind] at hstep
      cases hstep
  | null next =>
    rw [hcontent] at hstep
    cases hstep
  | container kind' content next =>
    rw [hcontent] at hstep
    cases hstep

theorem Reached.skip (h : Reached cls message n behind position r) {kind : LeafKind}
    (hstep : position.skip kind = some (outcome, position')) :
    wp (kind.skip cls) (fun _ r' ↦ .finished = outcome ∧ Reached cls message n behind position' r')
      (fun _ _ ↦ False) r := by
  rw [Position.skip] at hstep
  cases hcontent : position.content with
  | done =>
    rw [hcontent] at hstep
    cases hstep
    apply wp_mono (kind.skip_atEnd (h.atEnd hcontent))
    · intro _ r' hsame
      rw [hsame]
      exact ⟨rfl, h⟩
    · exact fun _ _ ↦ id
  | leaf field next =>
    simp only [hcontent] at hstep
    by_cases hkind : field.kind = kind
    · rw [if_pos hkind] at hstep
      cases hstep
      rw [← hkind]
      apply wp_mono (h.passLeaf hcontent field.skips)
      · exact fun _ _ h' ↦ ⟨rfl, h'.2⟩
      · exact fun _ _ ↦ id
    · rw [if_neg hkind] at hstep
      cases hstep
  | null next =>
    rw [hcontent] at hstep
    cases hstep
  | container kind' content next =>
    rw [hcontent] at hstep
    cases hstep

/-! ## Containers are entered and left -/

/-- `readArrayStart` and `readObjectStart`: `opening` reads what stands before the fields. -/
def readStart {α : Type} (cls : ReaderClass) (isArray : Bool) (opening : ReaderM α) : ReaderM (Option α) :=
  unlessEnd none (do
    if ← openContainer cls isArray then return some (← opening) else return none)

theorem readObjectStart_eq : readObjectStart cls =
    readStart cls false (do let p ← bytes cls (1 : ℕ); let r ← get; return r.mem p) := by
  simp only [readObjectStart, readStart, unlessEnd, bind_assoc, pure_bind]
  rfl

/-- A container that is not null is entered, up to its first field. -/
theorem InMessage.readStart {α : Type} {opening : ReaderM α} {value : α} {front body : List UInt8} {isArray : Bool}
    (h : InMessage cls r message n consumed left)
    (hdata : message.drop consumed = packedUInt22 (front ++ body).length ++ (front ++ body ++ rest))
    (hshort : (front ++ body).length < 2 ^ 22) (hfront : 0 < front.length)
    (hfits : (packedUInt22 (front ++ body).length).length + (front ++ body).length ≤ left)
    (hdepth : r.depth < readerMaxNestedObjects) (hopening : Decodes cls opening front value) :
    wp (readStart cls isArray opening)
      (fun found r' ↦ found = some value ∧
        InMessage cls r' message n (consumed + (packedUInt22 (front ++ body).length).length + front.length) body.length ∧
        Opened isArray (left - (packedUInt22 (front ++ body).length).length - (front ++ body).length) r r')
      (fun _ _ ↦ False) r := by
  have hpositive : 0 < (front ++ body).length := by
    rw [List.length_append]
    omega
  have hend := h.contentEnd_eq
  apply wp_beforeEnd (by omega)
  apply wp_call (h.openContainer isArray hdata hpositive hshort hfits hdepth)
  · intro found r₁ h₁
    obtain ⟨rfl, hin, hopened⟩ := h₁
    have hcontent : message.drop (consumed + (packedUInt22 (front ++ body).length).length) =
        front ++ (body ++ rest) := by
      rw [drop_append_left hdata, List.append_assoc]
    rw [if_pos rfl]
    apply wp_call (hin.decode hcontent (by rw [List.length_append]; omega) hopening)
    · intro found r₂ h₂
      obtain ⟨rfl, hmoved, hin'⟩ := h₂
      rw [List.length_append, Nat.add_sub_cancel_left] at hin'
      rw [wp_pure, List.length_append]
      rw [List.length_append] at hopened
      exact ⟨rfl, hin', hopened.sameNesting hmoved.sameNesting⟩
    · exact fun _ _ ↦ id
  · exact fun _ _ ↦ id

/-- A null container is passed over. -/
theorem InMessage.readStart_null {α : Type} {opening : ReaderM α} {isArray : Bool}
    (h : InMessage cls r message n consumed left) (hdata : message.drop consumed = packedUInt22 0 ++ rest)
    (hfits : (packedUInt22 0).length ≤ left) :
    wp (Reader.readStart cls isArray opening)
      (fun found r' ↦ found = none ∧ SameNesting r r' ∧
        InMessage cls r' message n (consumed + (packedUInt22 0).length) (left - (packedUInt22 0).length))
      (fun _ _ ↦ False) r := by
  have hend := h.contentEnd_eq
  have hpositive := length_packedUInt22_pos 0
  apply wp_beforeEnd (by omega)
  rw [openContainer_eq, bind_assoc]
  apply wp_call (h.readLength (by decide) hdata hfits)
  · intro found r₁ h₁
    obtain ⟨rfl, hsame, hin⟩ := h₁
    exact ⟨rfl, hsame, hin⟩
  · exact fun _ _ ↦ id

/-- The container that is next is entered: its content is that of the tree, and what it leaves of the content
around it is what is behind it. -/
theorem Reached.readStart {α : Type} {opening : ReaderM α} {value : α} {kind : Kind} {content next : Content}
    (h : Reached cls message n behind position r) (hfits : position.Fits)
    (hcontent : position.content = .container kind content next)
    (hopening : Decodes cls opening (openingBytes kind) value) :
    wp (Reader.readStart cls kind.isArray opening)
      (fun found r' ↦ found = some value ∧
        Reached cls message n behind ⟨content, ⟨kind.isArray, next⟩ :: position.frames⟩ r')
      (fun _ _ ↦ False) r := by
  obtain ⟨consumed, hin, hahead⟩ := h.place
  have hshort := hfits.short
  have hnesting := hfits.nesting_le
  rw [hcontent] at hshort
  rw [hcontent, Content.nesting] at hnesting
  rw [hcontent, Content.encode, List.length_append, List.length_append] at hin
  rw [Position.ahead, hcontent, Content.encode] at hahead
  simp only [List.append_assoc] at hahead
  have hdata : message.drop consumed = packedUInt22 (openingBytes kind ++ content.encode).length ++
      (openingBytes kind ++ content.encode ++ (next.encode ++
        ((position.frames.flatMap fun frame ↦ frame.behind.encode) ++ behind))) := by
    rw [hahead]
    simp only [List.append_assoc]
  have hdepth : r.depth < readerMaxNestedObjects := by
    rw [h.depth_eq]
    omega
  have hfront : 0 < (openingBytes kind).length := by
    cases kind with
    | array nItems => exact length_packedUInt22_pos nItems
    | object typeIndex => exact Nat.zero_lt_one
  apply wp_mono (@InMessage.readStart cls r message _ n consumed _ _ opening value _ _ kind.isArray hin hdata hshort.1
    hfront (by omega) hdepth hopening)
  · intro found r' h'
    obtain ⟨hfound, hin', hopened⟩ := h'
    have hheld : (packedUInt22 (openingBytes kind ++ content.encode).length).length +
        (openingBytes kind ++ content.encode).length + next.encode.length -
        (packedUInt22 (openingBytes kind ++ content.encode).length).length -
        (openingBytes kind ++ content.encode).length = next.encode.length := by omega
    rw [hheld] at hopened
    refine ⟨hfound, ⟨_, hin', ?_⟩, ?_, ?_⟩
    · rw [List.append_assoc] at hdata
      rw [drop_append_left (drop_append_left hdata), Position.ahead, List.flatMap_cons]
      simp only [List.append_assoc]
    · rw [hopened.depth_eq, h.depth_eq, List.length_cons]
    · rw [hopened.eOfs_eq, hopened.kinds_eq, h.depth_eq]
      exact ⟨Function.update_self _ _ _, Function.update_self _ _ _, h.limits.update le_rfl _ _⟩
  · exact fun _ _ ↦ id

theorem Reached.readStart_null {α : Type} {opening : ReaderM α} {isArray : Bool} {next : Content}
    (h : Reached cls message n behind position r) (hcontent : position.content = .null next) :
    wp (Reader.readStart cls isArray opening)
      (fun found r' ↦ found = none ∧ Reached cls message n behind { position with content := next } r')
      (fun _ _ ↦ False) r := by
  obtain ⟨consumed, hin, hahead⟩ := h.place
  rw [hcontent, Content.encode, List.length_append] at hin
  rw [Position.ahead, hcontent, Content.encode, List.append_assoc, List.append_assoc] at hahead
  apply wp_mono (hin.readStart_null hahead (by omega))
  · intro found r' h'
    obtain ⟨hfound, hsame, hin'⟩ := h'
    rw [Nat.add_sub_cancel_left] at hin'
    refine ⟨hfound, h.move rfl hsame hin' ?_⟩
    rw [drop_append_left hahead, Position.ahead, List.append_assoc]
  · exact fun _ _ ↦ id

/-- What each start gives to the decoder. `opening` reads what stands before the fields of a container of
its kind. -/
theorem Reached.enter {α : Type} {opening : ReaderM α} {isArray : Bool} {found : Option α → Outcome}
    (h : Reached cls message n behind position r) (hfits : position.Fits)
    (hstep : position.enter isArray = some (outcome, position'))
    (hnull : found none = Position.nullOutcome isArray)
    (hopening : ∀ kind, kind.isArray = isArray → (∀ nItems, kind = .array nItems → nItems < 2 ^ 22) →
      ∃ value, Decodes cls opening (openingBytes kind) value ∧ found (some value) = Position.openingOutcome kind) :
    wp (Reader.readStart cls isArray opening)
      (fun value r' ↦ found value = outcome ∧ Reached cls message n behind position' r') (fun _ _ ↦ False) r := by
  rw [Position.enter] at hstep
  cases hcontent : position.content with
  | done =>
    rw [hcontent] at hstep
    cases hstep
    exact wp_atEnd (h.atEnd hcontent) ⟨hnull, h⟩
  | leaf field next =>
    rw [hcontent] at hstep
    cases hstep
  | null next =>
    rw [hcontent] at hstep
    cases hstep
    apply wp_mono (h.readStart_null hcontent)
    · intro value r' h'
      rw [h'.1]
      exact ⟨hnull, h'.2⟩
    · exact fun _ _ ↦ id
  | container kind content next =>
    have hshort := hfits.short
    rw [hcontent] at hshort
    simp only [hcontent] at hstep
    by_cases hkind : kind.isArray = isArray
    · rw [if_pos hkind] at hstep
      cases hstep
      obtain ⟨value, hdecodes, hfound⟩ := hopening kind hkind hshort.2.1
      rw [← hkind]
      apply wp_mono (h.readStart hfits hcontent hdecodes)
      · intro value' r' h'
        rw [h'.1]
        exact ⟨hfound, h'.2⟩
      · exact fun _ _ ↦ id
    · rw [if_neg hkind] at hstep
      cases hstep

theorem Reached.readArrayStart (h : Reached cls message n behind position r) (hfits : position.Fits)
    (hstep : position.enter true = some (outcome, position')) :
    wp (readArrayStart cls)
      (fun nItems r' ↦ .count nItems = outcome ∧ Reached cls message n behind position' r') (fun _ _ ↦ False) r := by
  apply h.enter hfits hstep rfl
  intro kind hkind hcount
  cases kind with
  | array nItems =>
    have hshort := hcount nItems rfl
    refine ⟨nItems, ?_, rfl⟩
    rw [openingBytes, ← packedCount_eq hshort]
    exact decodes_packedCount hshort
  | object typeIndex => exact absurd hkind Bool.false_ne_true

theorem Reached.readObjectStart (h : Reached cls message n behind position r) (hfits : position.Fits)
    (hstep : position.enter false = some (outcome, position')) :
    wp (readObjectStart cls)
      (fun index r' ↦ .typeIndex index = outcome ∧ Reached cls message n behind position' r')
      (fun _ _ ↦ False) r := by
  rw [readObjectStart_eq]
  apply h.enter hfits hstep rfl
  intro kind hkind _
  cases kind with
  | array nItems => exact absurd hkind.symm Bool.false_ne_true
  | object typeIndex =>
    refine ⟨typeIndex, decodes_bytes (by decide) rfl fun p r hbytes ↦ ?_, rfl⟩
    exact List.head_eq_of_cons_eq ((List.map_singleton.symm.trans hbytes))

/-- The innermost container is closed at its end, and the limits around it are what they were. -/
theorem Reached.leave {isArray : Bool} (h : Reached cls message n behind position r)
    (hstep : position.leave isArray = some (outcome, position')) :
    wp (closeContainer cls isArray)
      (fun _ r' ↦ .finished = outcome ∧ Reached cls message n behind position' r') (fun _ _ ↦ False) r := by
  rw [Position.leave] at hstep
  cases hframes : position.frames with
  | nil =>
    rw [hframes] at hstep
    cases hstep
  | cons frame frames =>
    simp only [hframes] at hstep
    by_cases hkind : frame.isArray = isArray
    · rw [if_pos hkind] at hstep
      cases hstep
      obtain ⟨consumed, hin, hahead⟩ := h.place
      obtain ⟨hheld, hopen, hlimits⟩ : Limits (frame :: frames) r.eOfs r.containerIsArray := hframes ▸ h.limits
      have hdepth : r.depth = frames.length + 1 := by rw [h.depth_eq, hframes, List.length_cons]
      rw [Position.ahead, hframes, List.flatMap_cons, List.append_assoc] at hahead
      apply wp_mono (hin.closeContainer hdepth (hopen.trans hkind))
      · intro _ r' h'
        obtain ⟨hin', hdepth', heOfs', hkinds', -⟩ := h'
        rw [hheld] at hin'
        refine ⟨rfl, ⟨_, hin', ?_⟩, hdepth', ?_⟩
        · rw [drop_append_left hahead, Position.ahead, List.append_assoc]
        · rw [heOfs', hkinds']
          exact hlimits
      · intro _ _ hshort
        rw [hahead, List.length_append] at hshort
        omega
    · rw [if_neg hkind] at hstep
      cases hstep

/-- A container that is next is passed over as a whole. -/
theorem Reached.passContainer {length : ℕ} {body : List UInt8} {next : Content}
    (h : Reached cls message n behind position r) (hshort : length < 2 ^ 22) (hlength : body.length = length)
    (hcontent : position.content.encode = packedUInt22 length ++ body ++ next.encode) :
    wp (skipNested cls)
      (fun _ r' ↦ Reached cls message n behind { position with content := next } r') (fun _ _ ↦ False) r := by
  obtain ⟨consumed, hin, hahead⟩ := h.place
  rw [hcontent, List.length_append, List.length_append] at hin
  rw [Position.ahead, hcontent] at hahead
  simp only [List.append_assoc] at hahead
  have hend := hin.contentEnd_eq
  have hpositive := length_packedUInt22_pos length
  apply wp_beforeEnd (by omega)
  apply wp_call (hin.readLength hshort hahead (by omega))
  · intro found r₁ h₁
    obtain ⟨rfl, hsame, hin₁⟩ := h₁
    have hahead₁ := drop_append_left hahead
    have hmin : min found ((packedUInt22 found).length + body.length + next.encode.length -
        (packedUInt22 found).length) = body.length := by omega
    have hskip := @InMessage.skipContainerOf cls r₁ message n _ _ found hin₁ (by
      rw [hmin, hahead₁, List.length_append]
      omega)
    rw [hmin] at hskip
    apply wp_mono hskip
    · intro _ r₂ h₂
      obtain ⟨hin₂, hsame₂⟩ := h₂
      have hleft : (packedUInt22 found).length + body.length + next.encode.length - (packedUInt22 found).length -
          body.length = next.encode.length := by omega
      rw [hleft] at hin₂
      have hboth : SameNesting r r₂ := ⟨hsame₂.depth_eq.trans hsame.depth_eq, hsame₂.eOfs_eq.trans hsame.eOfs_eq,
        hsame₂.kinds_eq.trans hsame.kinds_eq⟩
      refine h.move rfl hboth hin₂ ?_
      rw [drop_append_left hahead₁, Position.ahead, List.append_assoc]
    · exact fun _ _ ↦ id
  · exact fun _ _ ↦ id

theorem Reached.skipNested (h : Reached cls message n behind position r) (hfits : position.Fits)
    (hstep : position.skipNested = some (outcome, position')) :
    wp (skipNested cls)
      (fun _ r' ↦ .finished = outcome ∧ Reached cls message n behind position' r') (fun _ _ ↦ False) r := by
  rw [Position.skipNested] at hstep
  cases hcontent : position.content with
  | done =>
    rw [hcontent] at hstep
    cases hstep
    exact wp_atEnd (h.atEnd hcontent) ⟨rfl, h⟩
  | leaf field next =>
    rw [hcontent] at hstep
    cases hstep
  | null next =>
    rw [hcontent] at hstep
    cases hstep
    apply wp_mono (@Reached.passContainer cls r message behind n position 0 [] next h (by decide) rfl (by
      rw [hcontent, List.append_nil]
      rfl))
    · exact fun _ _ h' ↦ ⟨rfl, h'⟩
    · exact fun _ _ ↦ id
  | container kind content next =>
    have hshort := hfits.short
    rw [hcontent] at hshort hstep
    cases hstep
    have hencode : position.content.encode = packedUInt22 (openingBytes kind ++ content.encode).length ++
        (openingBytes kind ++ content.encode) ++ next.encode := by rw [hcontent, Content.encode]
    apply wp_mono (h.passContainer hshort.1 rfl hencode)
    · exact fun _ _ h' ↦ ⟨rfl, h'⟩
    · exact fun _ _ ↦ id

/-! ## The steps -/

theorem Position.Fits.move {next : Content} (h : position.Fits) (hshort : next.Short)
    (hnesting : next.nesting ≤ position.content.nesting) : Position.Fits { position with content := next } := by
  have hle := h.nesting_le
  exact ⟨hshort, by simp only; omega, h.frames⟩

theorem Position.Fits.moveLeaf {field : Leaf} {next : Content} (h : position.Fits)
    (hcontent : position.content = .leaf field next) : Position.Fits { position with content := next } := by
  have hshort := h.short
  rw [hcontent] at hshort
  exact h.move hshort (by rw [hcontent, Content.nesting])

theorem Position.Fits.moveNull {next : Content} (h : position.Fits) (hcontent : position.content = .null next) :
    Position.Fits { position with content := next } := by
  have hshort := h.short
  rw [hcontent] at hshort
  exact h.move hshort (by rw [hcontent, Content.nesting])

theorem Position.Fits.read {kind : LeafKind} (h : position.Fits)
    (hstep : position.read kind = some (outcome, position')) : position'.Fits := by
  rw [Position.read] at hstep
  cases hcontent : position.content with
  | done =>
    rw [hcontent] at hstep
    cases hstep
    exact h
  | leaf field next =>
    simp only [hcontent] at hstep
    by_cases hkind : field.kind = kind
    · rw [if_pos hkind] at hstep
      cases hstep
      exact h.moveLeaf hcontent
    · rw [if_neg hkind] at hstep
      cases hstep
  | null next =>
    rw [hcontent] at hstep
    cases hstep
  | container kind' content next =>
    rw [hcontent] at hstep
    cases hstep

/-- A skip goes where a read goes. -/
theorem Position.skip_eq (kind : LeafKind) (position : Position) :
    position.skip kind = (position.read kind).map fun result ↦ (.finished, result.2) := by
  rw [Position.skip, Position.read]
  cases position.content with
  | done => rfl
  | leaf field next =>
    by_cases hkind : field.kind = kind
    · simp only [if_pos hkind, Option.map_some]
    · simp only [if_neg hkind, Option.map_none]
  | null next => rfl
  | container kind' content next => rfl

theorem Position.Fits.enter {isArray : Bool} (h : position.Fits)
    (hstep : position.enter isArray = some (outcome, position')) : position'.Fits := by
  rw [Position.enter] at hstep
  cases hcontent : position.content with
  | done =>
    rw [hcontent] at hstep
    cases hstep
    exact h
  | leaf field next =>
    rw [hcontent] at hstep
    cases hstep
  | null next =>
    rw [hcontent] at hstep
    cases hstep
    exact h.moveNull hcontent
  | container kind content next =>
    have hshort := h.short
    have hnesting := h.nesting_le
    rw [hcontent] at hshort
    rw [hcontent, Content.nesting] at hnesting
    simp only [hcontent] at hstep
    by_cases hkind : kind.isArray = isArray
    · rw [if_pos hkind] at hstep
      cases hstep
      refine ⟨hshort.2.2.1, ?_, hshort.2.2.2, ?_, h.frames⟩
      · simp only [List.length_cons]
        omega
      · simp only
        omega
    · rw [if_neg hkind] at hstep
      cases hstep

theorem Position.Fits.leave {isArray : Bool} (h : position.Fits)
    (hstep : position.leave isArray = some (outcome, position')) : position'.Fits := by
  rw [Position.leave] at hstep
  cases hframes : position.frames with
  | nil =>
    rw [hframes] at hstep
    cases hstep
  | cons frame frames =>
    obtain ⟨hshort, hnesting, hrest⟩ : FramesFit (frame :: frames) := hframes ▸ h.frames
    simp only [hframes] at hstep
    by_cases hkind : frame.isArray = isArray
    · rw [if_pos hkind] at hstep
      cases hstep
      exact ⟨hshort, hnesting, hrest⟩
    · rw [if_neg hkind] at hstep
      cases hstep

theorem Position.Fits.skipNested (h : position.Fits)
    (hstep : position.skipNested = some (outcome, position')) : position'.Fits := by
  rw [Position.skipNested] at hstep
  cases hcontent : position.content with
  | done =>
    rw [hcontent] at hstep
    cases hstep
    exact h
  | leaf field next =>
    rw [hcontent] at hstep
    cases hstep
  | null next =>
    rw [hcontent] at hstep
    cases hstep
    exact h.moveNull hcontent
  | container kind content next =>
    have hshort := h.short
    rw [hcontent] at hshort hstep
    cases hstep
    apply h.move hshort.2.2.2
    rw [hcontent, Content.nesting]
    exact le_max_right _ _

/-- A place that fits is left for one that fits. -/
theorem Position.Fits.step {call : NestedCall} (h : position.Fits)
    (hstep : position.step call = some (outcome, position')) : position'.Fits := by
  cases call with
  | read kind => exact h.read hstep
  | skip kind =>
    rw [Position.step, Position.skip_eq] at hstep
    obtain ⟨result, hread, hlast⟩ := Option.map_eq_some_iff.mp hstep
    cases hlast
    exact h.read hread
  | readArrayStart => exact h.enter hstep
  | readObjectStart => exact h.enter hstep
  | readArrayEnd => exact h.leave hstep
  | readObjectEnd => exact h.leave hstep
  | skipNested => exact h.skipNested hstep

/-- One call does on the bytes what it does on the tree. -/
theorem Reached.step {call : NestedCall} (h : Reached cls message n behind position r) (hfits : position.Fits)
    (hstep : position.step call = some (outcome, position')) :
    wp (call.run cls) (fun found r' ↦ found = outcome ∧ Reached cls message n behind position' r')
      (fun _ _ ↦ False) r := by
  cases call with
  | read kind => exact wp_bind.mpr (h.read hstep)
  | skip kind => exact wp_bind.mpr (h.skip hstep)
  | readArrayStart => exact wp_bind.mpr (h.readArrayStart hfits hstep)
  | readObjectStart => exact wp_bind.mpr (h.readObjectStart hfits hstep)
  | readArrayEnd => exact wp_bind.mpr (h.leave hstep)
  | readObjectEnd => exact wp_bind.mpr (h.leave hstep)
  | skipNested => exact wp_bind.mpr (h.skipNested hfits hstep)

/-- And so does any sequence of calls. -/
theorem Reached.run {calls : List NestedCall} {outcomes : List Outcome}
    (h : Reached cls message n behind position r) (hfits : position.Fits)
    (hrun : position.run calls = some (outcomes, position')) :
    wp (runNested cls calls) (fun found r' ↦ found = outcomes ∧ Reached cls message n behind position' r')
      (fun _ _ ↦ False) r := by
  induction calls generalizing position r outcomes with
  | nil =>
    rw [Position.run] at hrun
    cases hrun
    exact ⟨rfl, h⟩
  | cons call calls ih =>
    rw [Position.run] at hrun
    obtain ⟨result, hstep, hrest⟩ := Option.bind_eq_some_iff.mp hrun
    obtain ⟨results, hresults, hlast⟩ := Option.map_eq_some_iff.mp hrest
    cases hlast
    apply wp_call (h.step hfits hstep)
    · intro outcome r₁ h₁
      obtain ⟨rfl, hreached⟩ := h₁
      apply wp_call (ih hreached (hfits.step hstep) hresults)
      · intro outcomes r₂ h₂
        obtain ⟨rfl, hreached'⟩ := h₂
        exact ⟨rfl, hreached'⟩
      · exact fun _ _ ↦ id
    · exact fun _ _ ↦ id

/-- Wherever the reader is, no read gives a byte at or beyond the end of the innermost open container. -/
theorem Reached.inside (h : Reached cls message n behind position r) (call : ReadCall) :
    wp (call.run cls)
      (fun found _ ↦ found = call.result position.content.encode ∧ call.size ≤ position.content.encode.length)
      (fun _ _ ↦ True) r := by
  obtain ⟨consumed, hin, hahead⟩ := h.place
  apply wp_mono (call.run_spec hin.ready hin.hasBuffer)
  · intro found r' h'
    have hle := hin.not_exceeds_le h'.2.2.2
    refine ⟨?_, hle⟩
    rw [h'.2.2.1, hahead, Position.ahead, List.append_assoc]
    cases call with
    | bytes count => exact List.take_append_of_le_length hle
    | peek count => exact List.take_append_of_le_length hle
    | skip count => rfl
    | getBytes count => exact List.take_append_of_le_length hle
  · exact fun _ _ _ ↦ trivial

/-- A message that is the encoding of a tree is entered at the top of the tree. -/
theorem Between.reached {content : Content} (hmsg : cls.isMsg) (hbetween : Between cls r (content.encode ++ behind))
    (hplaced : Placed r content.encode.length) :
    wp (Reader.setMessageSize content.encode.length)
      (fun _ r' ↦ Reached cls (content.encode ++ behind) content.encode.length behind ⟨content, []⟩ r')
      (fun _ _ ↦ False) r := by
  have hspec := hbetween.setMessageSize hmsg hplaced
  rw [Reader.setMessageSize, wp_modify] at hspec ⊢
  refine ⟨⟨0, hspec, ?_⟩, rfl, trivial⟩
  rw [List.drop_zero, Position.ahead, List.flatMap_nil, List.append_nil]

/-- In a message that is the encoding of a tree of containers, any properly nested calls give what is in the
tree. After them the reader is where they lead in the tree, inside the limits of the containers that are
open there, and no read goes beyond the innermost one. -/
theorem nested_exact {content : Content} {calls : List NestedCall} {outcomes : List Outcome} (hmsg : cls.isMsg)
    (hbetween : Between cls r (content.encode ++ behind)) (hplaced : Placed r content.encode.length)
    (hshort : content.Short) (hnesting : content.nesting ≤ readerMaxNestedObjects)
    (hrun : Position.run ⟨content, []⟩ calls = some (outcomes, position)) :
    wp (do setMessageSize content.encode.length; runNested cls calls)
      (fun found r' ↦ found = outcomes ∧
        Reached cls (content.encode ++ behind) content.encode.length behind position r' ∧
        ∀ call : ReadCall, wp (call.run cls)
          (fun bytes _ ↦ bytes = call.result position.content.encode ∧ call.size ≤ position.content.encode.length)
          (fun _ _ ↦ True) r')
      (fun _ _ ↦ False) r := by
  apply wp_call (hbetween.reached hmsg hplaced)
  · intro _ r₁ h₁
    apply wp_mono (h₁.run ⟨hshort, hnesting, trivial⟩ hrun)
    · exact fun _ _ h₂ ↦ ⟨h₂.1, h₂.2, h₂.2.inside⟩
    · exact fun _ _ ↦ id
  · exact fun _ _ ↦ id

end

/-- An object of type 3 with an array of two numbers. -/
def nestedContent : Content :=
  .container (.object 3) (.container (.array 2)
    (.leaf (.int .int8 7 (by decide)) (.leaf (.int .int8 8 (by decide)) .done)) .done) .done

/-- The array is left after its first item. -/
theorem nested_exact_leaving :
    ∃ r, Between .msg r (nestedContent.encode ++ []) ∧ Placed r nestedContent.encode.length ∧
      wp (do
          setMessageSize nestedContent.encode.length
          runNested .msg [.readObjectStart, .readArrayStart, .read (.int .int8), .readArrayEnd, .readObjectEnd])
        (fun found r' ↦ found = [.typeIndex (some 3), .count (some 2), .value (.int 7), .finished, .finished] ∧
          Reached .msg (nestedContent.encode ++ []) nestedContent.encode.length [] ⟨.done, []⟩ r' ∧
          ∀ call : ReadCall, wp (call.run .msg)
            (fun bytes _ ↦ bytes = call.result Content.done.encode ∧ call.size ≤ Content.done.encode.length)
            (fun _ _ ↦ True) r')
        (fun _ _ ↦ False) r := by
  have hlength : nestedContent.encode.length < 2 ^ 32 := by decide +kernel
  have hshort : nestedContent.Short := by
    refine ⟨by decide +kernel, fun _ hkind ↦ (by cases hkind), ⟨by decide +kernel, ?_, trivial, trivial⟩, trivial⟩
    intro nItems hkind
    cases hkind
    decide
  obtain ⟨r, hbetween, hplaced⟩ :
      ∃ r, Between .msg r (nestedContent.encode ++ []) ∧ Placed r nestedContent.encode.length :=
    ⟨_, messageReader_between _, messageReader_placed _ hlength⟩
  exact ⟨r, hbetween, hplaced, nested_exact rfl hbetween hplaced hshort (by decide) rfl⟩

end DxApi.Reader
