import DxApi.Reader.Nested

/-!
# Messages that are written and read back

A client writes the fields of a tree by the calls of the writer, and another one reads them by the calls of the
reader. What the writer leaves in its buffer is ahead of the reader, as it is or in chunks of any lengths, and
the reader may read, skip, enter and leave as it likes. It gets what is in the tree exactly if the writer can
make room for the lengths of the containers.
-/

namespace DxApi.Writer

open Exec ByteMemory ByteOrder

/-! ## Stores of one word -/

/-- Bytes that all count, with a word behind them. -/
theorem Patch.append_word (data stored : List UInt8) (size : ℕ) :
    (Patch.data data).append (Patch.word stored size) = Patch.word (data ++ stored) (data.length + size) := by
  unfold Patch.append Patch.data Patch.word
  congr 1
  funext offset
  by_cases hfirst : offset < data.length
  · rw [if_pos hfirst, List.getElem?_append_left hfirst]
  · have hbehind : data.length ≤ offset := not_lt.mp hfirst
    have hnone : data[offset]? = none := List.getElem?_eq_none hbehind
    rw [if_neg hfirst, List.getElem?_append_right hbehind]
    exact (congrArg (stored[offset - data.length]?).or hnone).trans Option.or_none

variable {program : WriterM Unit} {w : DataWriter}

theorem PutsAt.run_eq {patch : Patch} (h : PutsAt (some patch) program w)
    (hroom : w.dataPtr + patch.size ≤ w.dataEnd) : program w = .ok () (patch.put w) := by
  have hnever : wp program (fun _ w' ↦ w' = patch.put w) (fun _ _ ↦ False) w := by
    apply wp_mono h
    · rintro - w' ⟨p, hp, hw', -⟩
      rw [hw', Option.some.inj hp]
    · intro _ _ hover
      have hbehind := hover patch rfl
      omega
  obtain ⟨value, w', hrun, hw'⟩ := exists_ok_of_wp hnever
  rw [hrun, hw']

/-- A call that stores a word does what the store of the word does. -/
theorem run_eq_putBE {stored : List UInt8} {size : ℕ} (h : Puts (some (Patch.word stored size)) program)
    (hroom : w.dataPtr + size ≤ w.dataEnd) : program w = putBE stored size w := by
  rw [(h w).run_eq hroom, (puts_putBE stored size w).run_eq hroom]

end DxApi.Writer

namespace DxApi.Reader

open Exec ByteMemory ByteOrder Writer

/-! ## The calls that write a tree -/

def IntType.write : IntType → ℤ → WriterM Unit
  | int8 => writeInt8
  | int16 => writeInt16
  | int32 => writeInt32
  | int48 => writeInt48
  | int64 => writeInt64

namespace Leaf

/-- The call that writes a leaf; a string is null when the pointer to it is. -/
def write : Leaf → WriterM Unit
  | uint8 value => writeByte value.toNat
  | int type value _ => type.write value
  | packed type value _ => type.write value
  | utf8 none => writeUTF8Null
  | utf8 (some text) => writeUTF8 text.1
  | ascii none => writeUTF8Null
  | ascii (some text) => writeAscii text.1

end Leaf

/-- The calls that write the fields of a content. `writeArrayNull` and `writeObjectNull` store the same. -/
def Content.write : Content → WriterM Unit
  | done => pure ()
  | leaf field next => do
    field.write
    next.write
  | null next => do
    writeArrayNull
    next.write
  | container kind content next => do
    kind.start
    content.write
    kind.finish
    next.write

/-- The calls that write a message. -/
def writeContent (content : Content) : WriterM ℤ := do
  let messageStart ← startMessage
  content.write
  finishMessage messageStart

/-- Whatever follows the bytes, any properly nested calls of any class of readers give what is in the tree, and
the reader is then where they lead in it. -/
def ReadsBack (content : Content) (data : List UInt8) : Prop :=
  ∀ (cls : ReaderClass) (r : DataReader) (behind : List UInt8) (calls : List NestedCall) (outcomes : List Outcome)
    (position : Position), cls.isMsg → Between cls r (data ++ behind) → Placed r data.length →
    Position.run ⟨content, []⟩ calls = some (outcomes, position) →
    wp (do setMessageSize data.length; runNested cls calls)
      (fun found r' ↦ found = outcomes ∧ Reached cls (data ++ behind) data.length behind position r')
      (fun _ _ ↦ False) r

/-! ## What the calls store -/

namespace Leaf

/-- The bytes that are stored behind a leaf and do not count. -/
def beyond : Leaf → List UInt8
  | int .int48 value _ => bigEndian 2 (word 8 (value * 2 ^ 16))
  | packed type value _ =>
    let high := (value + 1) / 2 ^ type.low
    if value = type.null then [] else littleEndian (type.size - bytesNeeded high) (high / 256 ^ bytesNeeded high)
  | _ => []

end Leaf

/-- The body that is written for a content. -/
def Content.body : Content → Body
  | done => .done
  | leaf field next => .leaf field.encode field.beyond next.body
  | null next => .leaf (packedUInt22 0) [] next.body
  | container kind content next => .container kind content.body next.body

section

variable {w : DataWriter}

theorem puts_writeInt (type : IntType) (value : ℤ) (hvalue : type.Fits value) :
    Puts (some (Patch.word ((Leaf.int type value hvalue).encode ++ (Leaf.int type value hvalue).beyond) type.size))
      (type.write value) := by
  cases type with
  | int48 =>
    have hword : word 8 (value * 2 ^ 16) / 256 ^ 2 = unsigned 6 value := by
      rw [word, unsigned]
      omega
    have hsplit := bigEndian_add 6 2 (word 8 (value * 2 ^ 16))
    rw [hword] at hsplit
    change Puts (some (Patch.word (bigEndian 6 (unsigned 6 value) ++ _) 6)) _
    rw [Leaf.beyond, ← hsplit]
    exact puts_putBE _ 6
  | int8 | int16 | int32 | int64 =>
    rw [Leaf.beyond.eq_def, List.append_nil]
    exact puts_putBE _ _

theorem puts_writePacked (type : PackedType) (value : ℕ) (hvalue : type.Fits value) :
    Puts (some (Patch.word ((Leaf.packed type value hvalue).encode ++ (Leaf.packed type value hvalue).beyond)
      (Leaf.packed type value hvalue).encode.length)) (type.write value) := by
  have hputs := puts_writePUInt type.size type.null type.max value
  rw [PackedType.write]
  by_cases hnull : value = type.null
  · have hzero : (Leaf.packed type value hvalue).encode = [0] := by
      rw [Leaf.encode, PackedType.code, if_pos hnull, PackedType.encode_zero]
    rw [pUIntPatch, if_pos hnull] at hputs
    rw [hzero, Leaf.beyond, if_pos hnull]
    exact hputs
  · have hsmall : value ≤ type.max := hvalue.resolve_left hnull
    have hpatch : pUIntPatch type.size type.null type.max value = some (packedPatch type.size (value + 1)) := by
      rw [pUIntPatch, if_neg hnull, if_neg (by omega)]
    have hlow : (value + 1) % 2 ^ type.low < 2 ^ type.low := Nat.mod_lt _ (Nat.two_pow_pos type.low)
    have hcount : bytesNeeded ((value + 1) / 2 ^ type.low) ≤ type.size := by
      rw [bytesNeeded_le_iff]
      have hlimit := type.max_lt_size
      have hdiv := Nat.div_le_self (value + 1) (2 ^ type.low)
      omega
    have hbytes := littleEndian_add (bytesNeeded ((value + 1) / 2 ^ type.low))
      (type.size - bytesNeeded ((value + 1) / 2 ^ type.low)) ((value + 1) / 2 ^ type.low)
    rw [Nat.add_sub_cancel' hcount] at hbytes
    rw [hpatch] at hputs
    rw [packedPatch, type.low_eq, variablePatch, hbytes] at hputs
    simp only [or_mul_two_pow _ hlow] at hputs
    have hlength : (Leaf.packed type value hvalue).encode.length = bytesNeeded ((value + 1) / 2 ^ type.low) + 1 := by
      rw [Leaf.encode, PackedType.code, if_neg hnull, PackedType.length_encode]
    rw [hlength, Leaf.encode, PackedType.code, if_neg hnull, PackedType.encode, Leaf.beyond, if_neg hnull]
    exact hputs

theorem puts_writeText (text : Text) :
    Puts (some (Patch.word (encodeUTF8 text.1) (encodeUTF8 text.1).length)) (writeUTF8 text.1) := by
  have hputs := puts_writeUTF8 text.1
  have hlength : (bigEndian 2 text.1.length).length = 2 := length_bigEndian 2 _
  rw [utf8Patch, if_neg (not_le.mpr text.2)] at hputs
  by_cases hempty : text.1.length ≠ 0
  · have happend := Patch.append_word (bigEndian 2 text.1.length) text.1 text.1.length
    rw [if_pos hempty] at hputs
    rw [Patch.data, hlength] at happend
    rw [length_encodeUTF8, encodeUTF8, ← happend]
    exact hputs
  · have hnil : text.1 = [] := List.length_eq_zero_iff.mp (not_not.mp hempty)
    rw [if_neg hempty] at hputs
    rw [length_encodeUTF8, encodeUTF8, hnil, List.append_nil]
    rw [hnil] at hputs
    exact hputs

/-- The call of a leaf stores one word, of which the encoding of the leaf counts. -/
theorem Leaf.puts (leaf : Leaf) :
    Puts (some (Patch.word (leaf.encode ++ leaf.beyond) leaf.encode.length)) leaf.write := by
  cases leaf with
  | uint8 value =>
    have hvalue : bigEndian 1 (word 1 value.toNat) = [value] := by
      have hword : word 1 value.toNat = value.toNat := by
        have hlt := value.toNat_lt
        rw [word]
        omega
      rw [hword]
      simp [bigEndian, littleEndian]
    have hputs := puts_putWord 1 value.toNat
    rw [wordPatch, hvalue] at hputs
    exact hputs
  | int type value hvalue =>
    have hlength : (Leaf.int type value hvalue).encode.length = type.size := length_bigEndian _ _
    rw [hlength]
    exact puts_writeInt type value hvalue
  | packed type value hvalue => exact puts_writePacked type value hvalue
  | utf8 text =>
    cases text with
    | none => exact puts_putWord 2 0xFFFF
    | some text =>
      have hbeyond : (Leaf.utf8 (some text)).beyond = [] := rfl
      rw [hbeyond, List.append_nil]
      exact puts_writeText text
  | ascii text =>
    cases text with
    | none => exact puts_putWord 2 0xFFFF
    | some text =>
      have hbeyond : (Leaf.ascii (some text)).beyond = [] := rfl
      rw [hbeyond, List.append_nil]
      exact puts_writeText text

/-! ## A content is written as its body -/

theorem run_bind_congr {α β : Type} {first second : WriterM α} {next next' : α → WriterM β}
    (hsame : first w = second w) (hnext : ∀ value w', second w = .ok value w' → next value w' = next' value w') :
    (first >>= next) w = (second >>= next') w := by
  cases hrun : second w with
  | ok value w' => rw [run_bind_of_ok (hsame.trans hrun), run_bind_of_ok hrun, hnext value w' hrun]
  | error error w' => rw [run_bind_of_error (hsame.trans hrun), run_bind_of_error hrun]

/-- An end call moves no pointer. -/
theorem closeContainer_frame (isArray : Bool) (w : DataWriter) :
    wp (Writer.closeContainer isArray)
      (fun _ w' ↦ w'.dataPtr = w.dataPtr ∧ w'.dataEnd = w.dataEnd ∧ w'.bufferStart = w.bufferStart ∧
        w'.depth = w.depth - 1)
      (fun _ _ ↦ True) w := by
  unfold Writer.closeContainer
  rw [wp_bind, wp_get]
  cases hdepth : w.depth with
  | zero => trivial
  | succ depth =>
    simp only [wp_bind, wp_set, wp_ite, wp_throw, wp_modify, wp_pure]
    exact ⟨fun _ ↦ trivial, fun _ ↦ ⟨fun _ ↦ ⟨trivial, trivial, trivial, rfl⟩, fun _ ↦ ⟨trivial, trivial, trivial, rfl⟩⟩⟩

theorem Content.write_eq_writeBody (content : Content) (hroom : Writer.HasRoom content.body.rawLength w)
    (hdepth : w.depth + content.body.nesting ≤ 16) : content.write w = writeBody content.body w := by
  induction content generalizing w with
  | done => rfl
  | leaf field next ih =>
    obtain ⟨hstart, hend, hbounded⟩ := hroom
    rw [body, Body.rawLength] at hend
    apply run_bind_congr (run_eq_putBE field.puts (by omega))
    intro _ w' hrun
    have hput := (wp_ok hrun).mp (putBE_spec field.encode field.beyond (by omega))
    have hptr := hput.dataPtr
    have hrest := hput.rest
    have hbase : w'.bufferStart = w.bufferStart := by rw [hrest]
    have hlimit : w'.dataEnd = w.dataEnd := by rw [hrest]
    have hlevel : w'.depth = w.depth := by rw [hrest]
    apply ih ⟨by omega, by omega, by omega⟩
    rw [hlevel]
    exact hdepth
  | null next ih =>
    obtain ⟨hstart, hend, hbounded⟩ := hroom
    rw [body, Body.rawLength] at hend
    have hputs : Puts (some (Patch.word (packedUInt22 0 ++ []) (packedUInt22 0).length)) writeArrayNull :=
      puts_putWord 1 0
    apply run_bind_congr (run_eq_putBE hputs (by omega))
    intro _ w' hrun
    have hput := (wp_ok hrun).mp (putBE_spec (packedUInt22 0) [] (by omega))
    have hptr := hput.dataPtr
    have hrest := hput.rest
    have hbase : w'.bufferStart = w.bufferStart := by rw [hrest]
    have hlimit : w'.dataEnd = w.dataEnd := by rw [hrest]
    have hlevel : w'.depth = w.depth := by rw [hrest]
    apply ih ⟨by omega, by omega, by omega⟩
    rw [hlevel]
    exact hdepth
  | container kind content next ihContent ihNext =>
    obtain ⟨hstart, hend, hbounded⟩ := hroom
    rw [body, Body.rawLength] at hend
    rw [body, Body.nesting] at hdepth
    apply run_bind_congr rfl
    intro _ first hfirst
    have hopen := (wp_ok hfirst).mp (start_spec (by omega) (by omega))
    have hrest := hopen.rest
    have hptr : first.dataPtr = w.dataPtr + 1 + kind.head.length := hopen.dataPtr
    have hbase : first.bufferStart = w.bufferStart := by rw [hrest]; rfl
    have hlimit : first.dataEnd = w.dataEnd := by rw [hrest]; rfl
    have hlevel : first.depth = w.depth + 1 := by rw [hrest]; rfl
    have hroomContent : Writer.HasRoom content.body.rawLength first := ⟨by omega, by omega, by omega⟩
    apply run_bind_congr (ihContent hroomContent (by omega))
    intro _ second hsecond
    have hwritten := (wp_ok hsecond).mp (writeBody_spec content.body hroomContent (by omega))
    have hptrSecond := hwritten.dataPtr
    have hbaseSecond := hwritten.bufferStart
    have hlimitSecond := hwritten.dataEnd
    have hlevelSecond := hwritten.depth
    apply run_bind_congr rfl
    intro _ third hthird
    rw [Kind.finish_eq] at hthird
    obtain ⟨hptrThird, hlimitThird, hbaseThird, hlevelThird⟩ :=
      (wp_ok hthird).mp (closeContainer_frame kind.isArray second)
    exact ihNext ⟨by omega, by omega, by omega⟩ (by omega)

theorem writeContent_eq_writeMessage {content : Content} (h : Writable content.body w) :
    writeContent content w = writeMessage content.body w := by
  have hlength := content.body.rawLength_add_extraTop_le
  have hstart := h.start
  have hroom := h.room
  have hbounded := h.bounded
  have hnesting := h.nesting
  apply run_bind_congr rfl
  intro messageStart w' hrun
  obtain ⟨-, hptr, hdepth, -, -, hbase, hend⟩ := (wp_ok hrun).mp (startMessage_spec (by omega))
  apply run_bind_congr
  · refine Content.write_eq_writeBody content ⟨by omega, by omega, by omega⟩ ?_
    rw [hdepth, Nat.zero_add]
    exact hnesting
  · exact fun _ _ _ ↦ rfl

/-! ## A content and its body have one encoding -/

theorem head_eq_openingBytes {kind : Kind} (h : ∀ nItems, kind = .array nItems → nItems < 2 ^ 22) :
    kind.head = openingBytes kind := by
  cases kind with
  | array nItems =>
    have hsmall := h nItems rfl
    rw [Kind.head, openingBytes, Nat.mod_eq_of_lt (by omega), packedCount_eq hsmall]
  | object typeIndex => rfl

theorem Content.encode_body {content : Content} (h : content.Short) : content.body.encode = content.encode := by
  induction content with
  | done => rfl
  | leaf field next ih => rw [body, Body.encode, encode, ih h]
  | null next ih => rw [body, Body.encode, encode, ih h]
  | container kind content next ihContent ihNext =>
    obtain ⟨-, hcount, hcontent, hnext⟩ := h
    rw [body, Body.encode, encode, ihContent hcontent, ihNext hnext, head_eq_openingBytes hcount]

theorem Content.nesting_body (content : Content) : content.body.nesting = content.nesting := by
  induction content with
  | done => rfl
  | leaf field next ih => exact ih
  | null next ih => exact ih
  | container kind content next ihContent ihNext => rw [body, Body.nesting, nesting, ihContent, ihNext]

/-- The reference encoding reads back. -/
theorem readsBack_encode {content : Content} (hshort : content.Short)
    (hnesting : content.nesting ≤ readerMaxNestedObjects) : ReadsBack content content.encode := by
  intro cls r behind calls outcomes position hmsg hbetween hplaced hrun
  apply wp_call (hbetween.reached hmsg hplaced)
  · exact fun _ _ hreached ↦ hreached.run ⟨hshort, hnesting, trivial⟩ hrun
  · exact fun _ _ ↦ id

/-- A message is written such that any properly nested calls of any reader give what was written, exactly if no
container with a content of 128 bytes or more lies inside another one, nor stands at the very beginning. -/
theorem writeContent_readsBack_iff {content : Content} (hshort : content.Short) (h : Writable content.body w) :
    wp (writeContent content)
      (fun messageEnd w' ↦ ReadsBack content (slice w'.mem (w.dataPtr + 4) messageEnd))
      (fun _ _ ↦ False) w ↔ content.body.Flat ∧ ¬ content.body.StartsLong := by
  have hnesting : content.nesting ≤ readerMaxNestedObjects := by
    rw [← content.nesting_body]
    exact h.nesting
  have hsame := writeContent_eq_writeMessage h
  unfold wp
  rw [hsame]
  change wp (writeMessage content.body) _ _ w ↔ _
  obtain ⟨w', hw', hiff⟩ := writeMessage_iff h
    (fun messageEnd w' ↦ ReadsBack content (slice w'.mem (w.dataPtr + 4) messageEnd)) (fun _ _ ↦ False)
  rw [hiff]
  by_cases hflat : content.body.Flat
  · have hfinish := finishMessage_flat hflat h.short hw'
    constructor
    · intro hreads
      obtain ⟨_, _, -, -, hstarts, -⟩ := exists_ok_of_wp (wp_mono (wp_and hreads hfinish) (fun _ _ ↦ id) fun _ _ ↦ And.left)
      exact ⟨hflat, hstarts⟩
    · rintro ⟨-, hstarts⟩
      apply wp_mono hfinish
      · rintro messageEnd last ⟨-, -, hdata⟩
        rw [hdata, Content.encode_body hshort]
        exact readsBack_encode hshort hnesting
      · exact fun _ _ hlong ↦ hstarts hlong
  · constructor
    · intro hreads
      obtain ⟨_, _, -, -, hfalse⟩ := exists_ok_of_wp
        (wp_mono (wp_and hreads (finishMessage_not_flat hflat h.short hw')) (fun _ _ ↦ id) fun _ _ ↦ And.left)
      exact hfalse.elim
    · exact fun hboth ↦ absurd hboth.1 hflat

end

/-- A number before an object with an array in it. -/
def numberedContent : Content := .leaf (.int .int32 5 (by decide)) nestedContent

theorem writeContent_readsBack_numbered :
    wp (writeContent numberedContent)
      (fun messageEnd w' ↦ ReadsBack numberedContent (slice w'.mem ((emptyWriter 100).dataPtr + 4) messageEnd))
      (fun _ _ ↦ False) (emptyWriter 100) := by
  have hshort : numberedContent.Short := by
    refine ⟨by decide +kernel, fun _ hkind ↦ (by cases hkind), ⟨by decide +kernel, ?_, trivial, trivial⟩, trivial⟩
    intro nItems hkind
    cases hkind
    decide
  have hwritable : Writable numberedContent.body (emptyWriter 100) :=
    ⟨by decide, by decide +kernel, by decide, by decide +kernel, by decide +kernel, ⟨by decide +kernel, trivial, trivial⟩,
      trivial⟩
  rw [writeContent_readsBack_iff hshort hwritable]
  exact ⟨⟨⟨by decide +kernel, trivial, trivial⟩, trivial⟩, fun hstarts ↦ absurd hstarts.1 (by decide +kernel)⟩

end DxApi.Reader
