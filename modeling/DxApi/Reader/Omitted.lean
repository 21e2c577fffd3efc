import DxApi.Reader.Decimals
import DxApi.Reader.Nested

/-!
# Fields that are left out

Fields that are null at the end of a content may be left out: what is read at the end of the content is
null as well. Every call asks on its own whether the content has ended, and one does not. What a call
reads there has to be what it reads of the bytes of null.
-/

namespace DxApi.Reader

open Exec ByteMemory ByteOrder Writer

/-! ## The bytes of null -/

/-- A call that reads a nullable field, with the bytes of null and what stands for null. -/
inductive NullCall : {α : Type} → (ReaderClass → ReaderM α) → List UInt8 → α → Type 1
  | uint8 : NullCall readUInt8 (bigEndian 1 0x80) 0x80
  | int8 : NullCall readInt8 (bigEndian 1 (unsigned 1 (-0x80))) (-0x80)
  | int16 : NullCall readInt16 (bigEndian 2 (unsigned 2 (-2 ^ 15))) (-2 ^ 15)
  | int32 : NullCall readInt32 (bigEndian 4 (unsigned 4 (-2 ^ 31))) (-2 ^ 31)
  | int48 : NullCall readInt48 (bigEndian 6 (unsigned 6 (-2 ^ 47))) (-2 ^ 47)
  | int64 : NullCall readInt64 (bigEndian 8 (unsigned 8 (-2 ^ 63))) (-2 ^ 63)
  | float64 : NullCall readFloat64 (bigEndian 8 float64Null) float64Null
  | float32 : NullCall readFloat32 (bigEndian 4 float32Null) float32Null
  | timestamp : NullCall readTimestamp (bigEndian 8 (unsigned 8 timestampNull)) timestampNull
  | timeOfDay : NullCall readTimeOfDay (bigEndian 4 (unsigned 4 (-1))) (-1)
  | enum8 : NullCall readEnum8 (bigEndian 1 (unsigned 1 (-1))) (-1)
  | enum16 : NullCall readEnum16 (bigEndian 2 (unsigned 2 (-1))) (-1)
  | enum32 : NullCall readEnum32 (bigEndian 4 (unsigned 4 (-1))) (-1)
  | enum64 : NullCall readEnum64 (bigEndian 8 (unsigned 8 (-1))) (-1)
  | nullableBooleanInt8 : NullCall readNullableBooleanInt8 (bigEndian 1 (unsigned 1 (-1))) (-1)
  | wchar : NullCall readWChar (bigEndian 2 0) 0
  | pUInt30 : NullCall readPUInt30 [0] uint30Null
  | pUInt61 : NullCall readPUInt61 [0] uint61Null
  | interval : NullCall readInterval [0] 0
  | dateTimeNs : NullCall readDateTimeNs [0xA0] timestampNull
  | dateTimeMs : NullCall readDateTimeMs [0xA0] timestampNull
  | decimal : NullCall readDecimal [0x1F] Decimal.null.value
  | alphanumeric (fieldSize : ℕ) (hfield : fieldSize + 1 < 2 ^ 32) :
    NullCall (readAlphanumeric fieldSize) (bitBytes (sizeBits fieldSize) (sizeCodes fieldSize)) none
  | alphanumericAs (size fieldSize : ℕ) (hfield : fieldSize + 1 < 2 ^ 32) :
    NullCall (readAlphanumericAs size fieldSize) (bitBytes (sizeBits fieldSize) (sizeCodes fieldSize))
      (alphanumericNull size)
  | utf8 : NullCall readUTF8 (bigEndian 2 0xFFFF) none
  | ascii : NullCall readAscii (bigEndian 2 0xFFFF) none
  | binary : NullCall readBinary [1] none
  | array : NullCall readArrayStart [0] none
  | object : NullCall readObjectStart [0] none
  | nullableInt8 : NullCall readNullableInt8 (bigEndian 1 (unsigned 1 (-0x80))) none
  | nullableInt16 : NullCall readNullableInt16 (bigEndian 2 (unsigned 2 (-2 ^ 15))) none
  | nullableInt32 : NullCall readNullableInt32 (bigEndian 4 (unsigned 4 (-2 ^ 31))) none
  | nullableInt48 : NullCall readNullableInt48 (bigEndian 6 (unsigned 6 (-2 ^ 47))) none
  | nullableInt64 : NullCall readNullableInt64 (bigEndian 8 (unsigned 8 (-2 ^ 63))) none
  | nullablePUInt30 : NullCall readNullablePUInt30 [0] none
  | nullablePUInt61 : NullCall readNullablePUInt61 [0] none
  | nullableInterval : NullCall readNullableInterval [0] none
  | nullableFloat64 : NullCall readNullableFloat64 (bigEndian 8 float64Null) none
  | nullableFloat32 : NullCall readNullableFloat32 (bigEndian 4 float32Null) none
  | nullableDecimal : NullCall readNullableDecimal [0x1F] none
  | nullableEnum8 : NullCall readNullableEnum8 (bigEndian 1 (unsigned 1 (-1))) none
  | nullableEnum16 : NullCall readNullableEnum16 (bigEndian 2 (unsigned 2 (-1))) none
  | nullableEnum32 : NullCall readNullableEnum32 (bigEndian 4 (unsigned 4 (-1))) none
  | nullableEnum64 : NullCall readNullableEnum64 (bigEndian 8 (unsigned 8 (-1))) none
  | nullableTimestamp : NullCall readNullableTimestamp (bigEndian 8 (unsigned 8 timestampNull)) none
  | nullableBoolean : NullCall readNullableBoolean (bigEndian 1 0xFF) none
  | nullableWChar : NullCall readNullableWChar (bigEndian 2 0) none

section

variable {α : Type} {read : ReaderClass → ReaderM α} {bytes : List UInt8} {null : α}

/-- The calls that do not read null of both: one does not ask for the end of the content, two take null for a
value and all else for null, and one throws where the size of the field is too large for its type. -/
def NullCall.Differs : NullCall read bytes null → Prop
  | .binary => True
  | .nullableFloat64 => True
  | .nullableFloat32 => True
  | .alphanumericAs _ fieldSize _ => 10 < fieldSize
  | _ => False

end

/-- A field of a message that may be left out. -/
structure NullField where
  Result : Type
  read : ReaderClass → ReaderM Result
  bytes : List UInt8
  null : Result
  call : NullCall read bytes null

def nullBytes (fields : List NullField) : List UInt8 := fields.flatMap NullField.bytes

/-- The fields are read as null by both readers, without an exception, and the first one does not move. -/
def SameNulls (cls : ReaderClass) : List NullField → DataReader → DataReader → Prop
  | [], _, _ => True
  | field :: fields, r, r' =>
    wp (field.read cls)
      (fun found r₁ ↦ found = field.null ∧ r₁ = r ∧
        wp (field.read cls) (fun found' r₂ ↦ found' = field.null ∧ SameNulls cls fields r r₂) (fun _ _ ↦ False) r')
      (fun _ _ ↦ False) r

/-! ## Null is read of its bytes -/

section

variable {cls : ReaderClass} {r r' : DataReader} {message message' rest bytes : List UInt8} {n n' consumed consumed' : ℕ}

theorem readsField_signed {size : ℕ} {value : ℤ} (hpositive : 0 < size) (hsize : size ≤ 0x200)
    (hlow : -2 ^ (8 * size - 1) ≤ value) (hhigh : value < 2 ^ (8 * size - 1)) :
    ReadsField (fun cls ↦ unlessEnd value (loadSigned cls size)) (bigEndian size (unsigned size value)) value := by
  apply readsField_of_decodes
  intro cls
  have hsigned := (@decodes_loadBE cls _ _ hsize (unsigned_lt size value)).map (signed size)
  rwa [signed_unsigned hpositive hlow hhigh] at hsigned

theorem readsField_word {size value : ℕ} (hsize : size ≤ 0x200) (hvalue : value < 256 ^ size) :
    ReadsField (fun cls ↦ unlessEnd value (loadBE cls size)) (bigEndian size value) value :=
  readsField_of_decodes value fun _ ↦ decodes_loadBE hsize hvalue

/-- What a nullable call makes of a value. -/
theorem readsField_nullable {α : Type} {isNull : α → Prop} [DecidablePred isNull] {program : ReaderClass → ReaderM α}
    {value : α} (h : ∀ cls, Decodes cls (program cls) bytes value) :
    ReadsField (fun cls ↦ nullable isNull (program cls)) bytes (if isNull value then none else some value) :=
  readsField_of_decodes none fun cls ↦ (h cls).map fun value ↦ if isNull value then none else some value

theorem readsField_nullableSigned {size : ℕ} {value : ℤ} (hpositive : 0 < size) (hsize : size ≤ 0x200)
    (hlow : -2 ^ (8 * size - 1) ≤ value) (hhigh : value < 2 ^ (8 * size - 1)) :
    ReadsField (fun cls ↦ nullable (· = value) (loadSigned cls size)) (bigEndian size (unsigned size value)) none := by
  have hloads (cls : ReaderClass) :
      Decodes cls (loadSigned cls size) (bigEndian size (unsigned size value)) value := by
    have hsigned := (@decodes_loadBE cls _ _ hsize (unsigned_lt size value)).map (signed size)
    rwa [signed_unsigned hpositive hlow hhigh] at hsigned
  have hnull := @readsField_nullable _ _ (· = value) _ _ _ hloads
  rwa [if_pos rfl] at hnull

/-- A nullable call around one that asks for the end of the content itself. -/
theorem ReadsField.nullable {α : Type} {isNull : α → Prop} [DecidablePred isNull] {program : ReaderClass → ReaderM α}
    {value : α} (h : ReadsField program bytes value) (hnull : isNull value) :
    ReadsField (fun cls ↦ Reader.nullable isNull (program cls)) bytes none := by
  intro cls r rest left hready hleft hroomy hmore
  apply wp_beforeEnd hmore
  apply wp_call (h cls r rest left hready hleft hroomy hmore)
  · intro found r' h'
    rw [wp_pure, h'.1, if_pos hnull]
    exact ⟨rfl, h'.2⟩
  · exact fun _ _ ↦ id

theorem readsField_nullDecimal :
    ReadsField (fun cls ↦ unlessEnd .null (getDecimal cls)) [0x1F] .null := readsField_getDecimal (by decide)

theorem decodes_nullDecimal : Decodes cls (getDecimal cls) [0x1F] .null := decodes_getDecimal (by decide)

theorem sizeCodes_ne_zero {fieldSize : ℕ} (hfield : fieldSize + 1 < 2 ^ 32) : sizeCodes fieldSize ≠ 0 := by
  rw [sizeCodes, Nat.mod_eq_of_lt hfield]
  exact Nat.succ_ne_zero fieldSize

theorem readsField_alphanumericAsNull (size : ℕ) {fieldSize : ℕ} (hsmall : fieldSize ≤ 10) :
    ReadsField (readAlphanumericAs size fieldSize) (bitBytes (sizeBits fieldSize) (sizeCodes fieldSize))
      (alphanumericNull size) := by
  have hpositive := sizeBits_pos hsmall
  have hbits := sizeBits_le hsmall
  have hone : (sizeBits fieldSize + 7) / 8 = 1 := by omega
  have hbytes : bitBytes (sizeBits fieldSize) (sizeCodes fieldSize) = encodeAlphanumericNull fieldSize := by
    rw [bitBytes, hone]
    rfl
  rw [hbytes]
  exact readsField_of_decodes _ fun _ ↦ decodes_encodeAlphanumericNull size hsmall

theorem readsField_readStart_null {α : Type} {isArray : Bool} {opening : ReaderClass → ReaderM α} :
    ReadsField (fun cls ↦ readStart cls isArray (opening cls)) [0] none := by
  apply readsField_of_decodes none
  intro cls r rest left hready hleft hroomy
  rw [openContainer_eq, bind_assoc]
  apply wp_call (@decodes_packedCount cls 0 (by decide) r rest left hready hleft hroomy)
  · intro found r' h'
    obtain ⟨rfl, htook⟩ := h'
    exact ⟨rfl, htook⟩
  · exact fun _ _ ↦ id

/-! ## The calls -/

variable {α : Type} {read : ReaderClass → ReaderM α} {null : α}

theorem NullCall.length_pos (call : NullCall read bytes null) : 0 < bytes.length := by
  cases call with
  | alphanumeric fieldSize hfield =>
    rw [length_bitBytes]
    have hpositive : 0 < sizeBits fieldSize := Nat.size_pos.mpr (Nat.pos_of_ne_zero (sizeCodes_ne_zero hfield))
    omega
  | alphanumericAs size fieldSize hfield =>
    rw [length_bitBytes]
    have hpositive : 0 < sizeBits fieldSize := Nat.size_pos.mpr (Nat.pos_of_ne_zero (sizeCodes_ne_zero hfield))
    omega
  | _ => simp only [length_bigEndian, List.length_singleton, Nat.zero_lt_succ]

/-- The bytes of null are read as null. -/
theorem NullCall.reads (call : NullCall read bytes null) (hsame : ¬ call.Differs) : ReadsField read bytes null := by
  cases call with
  | uint8 => exact readsField_word (by decide) (by decide)
  | int8 => exact readsField_signed (by decide) (by decide) (by decide) (by decide)
  | int16 => exact readsField_signed (by decide) (by decide) (by decide) (by decide)
  | int32 => exact readsField_signed (by decide) (by decide) (by decide) (by decide)
  | int48 => exact readsField_signed (by decide) (by decide) (by decide) (by decide)
  | int64 => exact readsField_signed (by decide) (by decide) (by decide) (by decide)
  | float64 => exact readsField_word (by decide) (by decide)
  | float32 => exact readsField_word (by decide) (by decide)
  | timestamp => exact readsField_signed (by decide) (by decide) (by decide) (by decide)
  | timeOfDay => exact readsField_signed (by decide) (by decide) (by decide) (by decide)
  | enum8 => exact readsField_signed (by decide) (by decide) (by decide) (by decide)
  | enum16 => exact readsField_signed (by decide) (by decide) (by decide) (by decide)
  | enum32 => exact readsField_signed (by decide) (by decide) (by decide) (by decide)
  | enum64 => exact readsField_signed (by decide) (by decide) (by decide) (by decide)
  | nullableBooleanInt8 => exact readsField_signed (by decide) (by decide) (by decide) (by decide)
  | wchar => exact readsField_word (by decide) (by decide)
  | pUInt30 => exact (@PackedType.survives_encode .pUInt30 _ (.inl rfl)).reads
  | pUInt61 => exact (@PackedType.survives_encode .pUInt61 _ (.inl rfl)).reads
  | interval => exact @readsField_units 0 (by decide)
  | dateTimeNs => exact null_survives.null rfl
  | dateTimeMs => exact null_survives.millis
  | decimal => exact readsField_nullDecimal.map Decimal.value
  | alphanumeric fieldSize hfield => exact readsField_alphanumericNull (sizeCodes_ne_zero hfield)
  | alphanumericAs size fieldSize hfield => exact readsField_alphanumericAsNull size (not_lt.mp hsame)
  | utf8 => exact readsField_text none
  | ascii => exact readsField_text none
  | binary => exact absurd trivial hsame
  | array => exact readsField_readStart_null
  | object =>
    have hobject : readObjectStart = fun cls ↦
        readStart cls false (do let p ← Reader.bytes cls (1 : ℕ); let r ← get; return r.mem p) := by
      funext cls
      exact readObjectStart_eq
    rw [hobject]
    exact readsField_readStart_null
  | nullableInt8 => exact readsField_nullableSigned (by decide) (by decide) (by decide) (by decide)
  | nullableInt16 => exact readsField_nullableSigned (by decide) (by decide) (by decide) (by decide)
  | nullableInt32 => exact readsField_nullableSigned (by decide) (by decide) (by decide) (by decide)
  | nullableInt48 => exact readsField_nullableSigned (by decide) (by decide) (by decide) (by decide)
  | nullableInt64 => exact readsField_nullableSigned (by decide) (by decide) (by decide) (by decide)
  | nullablePUInt30 => exact (@PackedType.survives_encode .pUInt30 _ (.inl rfl)).reads.nullable rfl
  | nullablePUInt61 => exact (@PackedType.survives_encode .pUInt61 _ (.inl rfl)).reads.nullable rfl
  | nullableInterval => exact (@readsField_units 0 (by decide)).nullable rfl
  | nullableFloat64 => exact absurd trivial hsame
  | nullableFloat32 => exact absurd trivial hsame
  | nullableDecimal =>
    have hnull := @readsField_nullable _ _ (fun value : Float ↦ value.isNaN = true) _ _ _
      fun cls ↦ (@decodes_nullDecimal cls).map Decimal.value
    rwa [if_pos Decimal.isNaN_value_null] at hnull
  | nullableEnum8 => exact readsField_nullableSigned (by decide) (by decide) (by decide) (by decide)
  | nullableEnum16 => exact readsField_nullableSigned (by decide) (by decide) (by decide) (by decide)
  | nullableEnum32 => exact readsField_nullableSigned (by decide) (by decide) (by decide) (by decide)
  | nullableEnum64 => exact readsField_nullableSigned (by decide) (by decide) (by decide) (by decide)
  | nullableTimestamp =>
    exact (@readsField_signed 8 (-2 ^ 63) (by decide) (by decide) (by decide) (by decide)).nullable rfl
  | nullableBoolean =>
    exact (@readsField_nullable _ _ (· = 0xFF) _ _ _ fun cls ↦ @decodes_loadBE cls 1 0xFF (by decide) (by decide)).map
      fun found ↦ found.map fun x ↦ decide (x = 1)
  | nullableWChar =>
    exact @readsField_nullable _ _ (· = 0) _ _ _ fun cls ↦ @decodes_loadBE cls 2 0 (by decide) (by decide)

/-- At the end of the content null is read and nothing moves. -/
theorem NullCall.atEnd (call : NullCall read bytes null) (hsame : ¬ call.Differs) (hend : r.dataPtr = r.contentEnd) :
    wp (read cls) (fun found r' ↦ found = null ∧ r' = r) (fun _ _ ↦ False) r := by
  cases call with
  | binary => exact absurd trivial hsame
  | object => exact @readObjectStart_eq cls ▸ wp_atEnd hend ⟨rfl, rfl⟩
  | decimal => exact wp_bind.mpr (wp_atEnd hend ⟨rfl, rfl⟩)
  | nullableBoolean => exact wp_bind.mpr (wp_atEnd hend ⟨rfl, rfl⟩)
  | _ => exact wp_atEnd hend ⟨rfl, rfl⟩

theorem not_wp_of_throws {program : ReaderM α} {post : α → DataReader → Prop}
    (h : wp program (fun _ _ ↦ False) (fun _ _ ↦ True) r) : ¬ wp program post (fun _ _ ↦ False) r := by
  intro hreturns
  obtain ⟨_, _, hrun, -⟩ := exists_ok_of_wp hreturns
  rwa [wp_ok hrun] at h

/-- Some call does not read null in both places. -/
theorem NullCall.fails (call : NullCall read bytes null) (hdiffers : call.Differs)
    (h : InMessage cls r message n consumed 0) {left : ℕ} (h' : InMessage cls r' message' n' consumed' left)
    (hdata : message'.drop consumed' = bytes ++ rest) (hleft : bytes.length ≤ left) :
    ¬ (wp (read cls) (fun found _ ↦ found = null) (fun _ _ ↦ False) r ∧
      wp (read cls) (fun found _ ↦ found = null) (fun _ _ ↦ False) r') := by
  have hpositive := call.length_pos
  have hmore : r'.dataPtr ≠ r'.contentEnd := by
    have hend := h'.contentEnd_eq
    omega
  intro hboth
  cases call with
  | binary =>
    apply not_wp_of_throws _ hboth.1
    apply wp_call (loadBE_spec (by decide) h.ready h.hasRoom)
    · intro _ _ hloaded
      have hwithin := (within_iff.mp hloaded.2.2).2 h.isMsg
      omega
    · exact fun _ _ _ ↦ trivial
  | nullableFloat64 =>
    have hvalue : ReadsField readNullableFloat64 (bigEndian 8 float64Null) (some float64Null) :=
      @readsField_nullable _ _ (· ≠ float64Null) _ _ _ fun cls ↦ @decodes_loadBE cls 8 _ (by decide) (by decide)
    obtain ⟨_, _, hrun, hfound, -⟩ := exists_ok_of_wp (h'.readField hdata hleft hpositive hvalue)
    have hnull := (wp_ok hrun).mp hboth.2
    rw [hfound] at hnull
    cases hnull
  | nullableFloat32 =>
    have hvalue : ReadsField readNullableFloat32 (bigEndian 4 float32Null) (some float32Null) :=
      @readsField_nullable _ _ (· ≠ float32Null) _ _ _ fun cls ↦ @decodes_loadBE cls 4 _ (by decide) (by decide)
    obtain ⟨_, _, hrun, hfound, -⟩ := exists_ok_of_wp (h'.readField hdata hleft hpositive hvalue)
    have hnull := (wp_ok hrun).mp hboth.2
    rw [hfound] at hnull
    cases hnull
  | alphanumericAs size fieldSize hfield =>
    have hlarge : 10 + 1 < sizeCodes fieldSize := by
      have hsize : 10 < fieldSize := hdiffers
      rw [sizeCodes, Nat.mod_eq_of_lt hfield]
      omega
    apply not_wp_of_throws _ hboth.2
    apply wp_beforeEnd hmore
    rw [getAlphanumericAs, if_pos hlarge]
    trivial
  | _ => exact hdiffers

/-! ## Lists of fields -/

/-- Fields that are left out at the end of a content are read as their nulls are, if and only if none of them is
read by a call that does not ask for the end or does not read null. -/
theorem omitted_nulls_iff {fields : List NullField} (h : InMessage cls r message n consumed 0)
    (h' : InMessage cls r' message' n' consumed' (nullBytes fields).length)
    (hdata : message'.drop consumed' = nullBytes fields ++ rest) :
    SameNulls cls fields r r' ↔ ∀ field ∈ fields, ¬ field.call.Differs := by
  have hend : r.dataPtr = r.contentEnd := by
    have hcontent := h.contentEnd_eq
    omega
  induction fields generalizing r' consumed' with
  | nil => exact iff_of_true trivial fun _ hmem ↦ absurd hmem List.not_mem_nil
  | cons field fields ih =>
    rw [nullBytes, List.flatMap_cons, List.append_assoc] at hdata
    rw [nullBytes, List.flatMap_cons, List.length_append] at h'
    rw [List.forall_mem_cons, SameNulls]
    by_cases hdiffers : field.call.Differs
    · apply iff_of_false
      · intro hsame
        obtain ⟨_, _, hrun, hnull, -, hexplicit⟩ := exists_ok_of_wp hsame
        apply field.call.fails hdiffers h h' hdata (by omega)
        refine ⟨(wp_ok hrun).mpr hnull, wp_mono hexplicit ?_ fun _ _ ↦ id⟩
        exact fun _ _ hfound ↦ hfound.1
      · exact fun hall ↦ hall.1 hdiffers
    · have hread := h'.readField hdata (by omega) field.call.length_pos (field.call.reads hdiffers)
      obtain ⟨_, _, hrun, hnull, hstill⟩ := exists_ok_of_wp (@NullCall.atEnd cls r _ _ _ _ field.call hdiffers hend)
      obtain ⟨_, r₂, hrun', hnull', -, hin⟩ := exists_ok_of_wp hread
      rw [Nat.add_sub_cancel_left] at hin
      have hrest : SameNulls cls fields r r₂ ↔ ∀ field ∈ fields, ¬ field.call.Differs := ih hin (drop_append_left hdata)
      rw [wp_ok hrun, wp_ok hrun', hrest]
      exact ⟨fun hall ↦ ⟨hdiffers, hall.2.2.2⟩, fun hall ↦ ⟨hnull, hstill, hnull', hall.2⟩⟩

end

/-- A number, a string and an object. -/
def threeNulls : List NullField :=
  [⟨_, _, _, _, .int32⟩, ⟨_, _, _, _, .utf8⟩, ⟨_, _, _, _, .object⟩]

theorem threeNulls_read_same :
    ∃ r r', InMessage .msg r [] 0 0 0 ∧ InMessage .msg r' (nullBytes threeNulls) 7 0 (nullBytes threeNulls).length ∧
      (SameNulls .msg threeNulls r r' ↔ ∀ field ∈ threeNulls, ¬ field.call.Differs) := by
  obtain ⟨r, hin⟩ : ∃ r, InMessage .msg r [] 0 0 0 := ⟨_, atMessage_inMessage (by decide)⟩
  obtain ⟨r', hin'⟩ : ∃ r', InMessage .msg r' (nullBytes threeNulls) 7 0 (nullBytes threeNulls).length :=
    ⟨_, atMessage_inMessage (by decide)⟩
  exact ⟨r, r', hin, hin', omitted_nulls_iff hin hin' (List.append_nil _).symm⟩

/-- Binary data that is left out is not read as null. -/
theorem omitted_binary_throws :
    ¬ ∀ (fields : List NullField) (r r' : DataReader) (message message' rest : List UInt8) (n n' consumed consumed' : ℕ),
      InMessage .msg r message n consumed 0 → InMessage .msg r' message' n' consumed' (nullBytes fields).length →
      message'.drop consumed' = nullBytes fields ++ rest → SameNulls .msg fields r r' := by
  intro hall
  obtain ⟨r, hin⟩ : ∃ r, InMessage .msg r [] 0 0 0 := ⟨_, atMessage_inMessage (by decide)⟩
  obtain ⟨r', hin'⟩ : ∃ r', InMessage .msg r' [1] 1 0 1 := ⟨_, atMessage_inMessage (by decide)⟩
  have hsame : SameNulls .msg [⟨_, _, _, _, .binary⟩] r r' :=
    hall [⟨_, _, _, _, .binary⟩] r r' [] [1] [] 0 1 0 0 hin hin' rfl
  obtain ⟨_, _, hrun, hnull, -, hexplicit⟩ := exists_ok_of_wp hsame
  apply NullCall.binary.fails trivial hin hin' (List.append_nil [1]).symm le_rfl
  refine ⟨(wp_ok hrun).mpr hnull, wp_mono hexplicit ?_ fun _ _ ↦ id⟩
  exact fun _ _ hfound ↦ hfound.1

end DxApi.Reader
