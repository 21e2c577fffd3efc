import DxApi.Reader.Skips

/-!
# The two ways of reading a value

For every scalar type there is a call that returns the value, null among the values, and one that
returns whether there is a value and stores it. They are written apart: each has its own test for null
and asks itself whether the content has ended. The tests of the two floating-point types are written the
wrong way round.
-/

namespace DxApi.Reader

open Exec ByteOrder

/-! ## The overloads for signed types -/

/-- `readPUInt30(int32_t &)`: the value is compared with null when it has been stored. -/
def readNullableSignedPUInt30 (cls : ReaderClass) : ReaderM (Option ℤ) :=
  nullable (· = (Writer.uint30Null : ℤ)) (do return signed 4 (← readPUInt30 cls))

/-- `readPUInt61(int64_t &)`. -/
def readNullableSignedPUInt61 (cls : ReaderClass) : ReaderM (Option ℤ) :=
  nullable (· = (Writer.uint61Null : ℤ)) (do return signed 8 (← readPUInt61 cls))

/-- `readInterval(int32_t &)`. -/
def readNullableSignedInterval (cls : ReaderClass) : ReaderM (Option ℤ) :=
  nullable (· = (0 : ℤ)) (do return signed 4 (← readInterval cls))

/-! ## Agreement -/

/-- Both calls throw, or they leave the reader the same and their values agree. -/
def SameOutcome {α β : Type} (agree : α → β → Prop) (read : ReaderM α) (read' : ReaderM β) (r : DataReader) : Prop :=
  match read r, read' r with
  | .ok value r', .ok value' r'' => agree value value' ∧ r' = r''
  | .error _ _, .error _ _ => True
  | _, _ => False

/-- The scalar types that have both calls. Three of them have the second one also for a signed type. -/
inductive ScalarType
  | int8
  | int16
  | int32
  | int48
  | int64
  | pUInt30
  | pUInt61
  | interval
  | signedPUInt30
  | signedPUInt61
  | signedInterval
  | float32
  | float64
  | decimal
  | enum8
  | enum16
  | enum32
  | enum64
  | timestamp
  | wchar
  deriving DecidableEq, Repr

namespace ScalarType

/-- Floating-point numbers that are read as they are sent are known by their bits. -/
def Value : ScalarType → Type
  | int8 | int16 | int32 | int48 | int64 | enum8 | enum16 | enum32 | enum64 | timestamp => ℤ
  | pUInt30 | pUInt61 | interval | signedPUInt30 | signedPUInt61 | signedInterval | float32 | float64 | wchar => ℕ
  | decimal => Float

/-- What the second call stores. -/
def Stored : ScalarType → Type
  | signedPUInt30 | signedPUInt61 | signedInterval => ℤ
  | type => type.Value

/-- The call that returns the value. -/
def read (cls : ReaderClass) : (type : ScalarType) → ReaderM type.Value
  | int8 => readInt8 cls
  | int16 => readInt16 cls
  | int32 => readInt32 cls
  | int48 => readInt48 cls
  | int64 => readInt64 cls
  | pUInt30 | signedPUInt30 => readPUInt30 cls
  | pUInt61 | signedPUInt61 => readPUInt61 cls
  | interval | signedInterval => readInterval cls
  | float32 => readFloat32 cls
  | float64 => readFloat64 cls
  | decimal => readDecimal cls
  | enum8 => readEnum8 cls
  | enum16 => readEnum16 cls
  | enum32 => readEnum32 cls
  | enum64 => readEnum64 cls
  | timestamp => readTimestamp cls
  | wchar => readWChar cls

/-- The call that returns whether there is a value. -/
def readNullable (cls : ReaderClass) : (type : ScalarType) → ReaderM (Option type.Stored)
  | int8 => readNullableInt8 cls
  | int16 => readNullableInt16 cls
  | int32 => readNullableInt32 cls
  | int48 => readNullableInt48 cls
  | int64 => readNullableInt64 cls
  | pUInt30 => readNullablePUInt30 cls
  | pUInt61 => readNullablePUInt61 cls
  | interval => readNullableInterval cls
  | signedPUInt30 => readNullableSignedPUInt30 cls
  | signedPUInt61 => readNullableSignedPUInt61 cls
  | signedInterval => readNullableSignedInterval cls
  | float32 => readNullableFloat32 cls
  | float64 => readNullableFloat64 cls
  | decimal => readNullableDecimal cls
  | enum8 => readNullableEnum8 cls
  | enum16 => readNullableEnum16 cls
  | enum32 => readNullableEnum32 cls
  | enum64 => readNullableEnum64 cls
  | timestamp => readNullableTimestamp cls
  | wchar => readNullableWChar cls

/-- There is a value if it is not null, and then it is stored. -/
def Tells {α : Type} [DecidableEq α] (null value : α) (told : Option α) : Prop :=
  told = if value = null then none else some value

/-- The same where the value is stored in a signed type of `size` bytes. -/
def TellsSigned (size null value : ℕ) (told : Option ℤ) : Prop :=
  told = if value = null then none else some (signed size value)

/-- The same for a decimal, which is null if it is not a number. -/
def TellsDecimal (value : Float) (told : Option Float) : Prop :=
  told = if value.isNaN then none else some value

/-- What one call returns tells what the other one does. -/
def Agree : (type : ScalarType) → type.Value → Option type.Stored → Prop
  | int8 => @Tells ℤ _ (-0x80)
  | int16 => @Tells ℤ _ (-2 ^ 15)
  | int32 => @Tells ℤ _ (-2 ^ 31)
  | int48 => @Tells ℤ _ (-2 ^ 47)
  | int64 => @Tells ℤ _ (-2 ^ 63)
  | pUInt30 => @Tells ℕ _ Writer.uint30Null
  | pUInt61 => @Tells ℕ _ Writer.uint61Null
  | interval => @Tells ℕ _ 0
  | signedPUInt30 => TellsSigned 4 Writer.uint30Null
  | signedPUInt61 => TellsSigned 8 Writer.uint61Null
  | signedInterval => TellsSigned 4 0
  | float32 => @Tells ℕ _ float32Null
  | float64 => @Tells ℕ _ float64Null
  | decimal => TellsDecimal
  | enum8 | enum16 | enum32 | enum64 => @Tells ℤ _ (-1)
  | timestamp => @Tells ℤ _ Writer.timestampNull
  | wchar => @Tells ℕ _ 0

/-- How many bytes a floating-point number takes that is not packed. -/
def floatSize : ScalarType → Option ℕ
  | float32 => some 4
  | float64 => some 8
  | _ => none

end ScalarType

/-- The two calls of a type agree where the reader is. -/
def OverloadsAgree (cls : ReaderClass) (type : ScalarType) (r : DataReader) : Prop :=
  SameOutcome type.Agree (type.read cls) (type.readNullable cls) r

variable {α β γ : Type} {cls : ReaderClass} {r : DataReader}

/-! ## Calls that agree -/

theorem unlessEnd_eq (null : α) (program : ReaderM α) (r : DataReader) :
    unlessEnd null program r = if r.dataPtr = r.contentEnd then .ok null r else program r := by
  change (if decide (r.dataPtr = r.contentEnd) = true then pure null else program) r = _
  by_cases hend : r.dataPtr = r.contentEnd
  · rw [if_pos (decide_eq_true hend), if_pos hend]
    rfl
  · rw [if_neg (Bool.eq_false_iff.mp (decide_eq_false hend)), if_neg hend]

theorem sameOutcome_unlessEnd {agree : α → β → Prop} {null : α} {null' : β} {read : ReaderM α} {read' : ReaderM β}
    (hnull : agree null null') : SameOutcome agree (unlessEnd null read) (unlessEnd null' read') r ↔
      r.dataPtr = r.contentEnd ∨ SameOutcome agree read read' r := by
  by_cases hend : r.dataPtr = r.contentEnd
  · simp [SameOutcome, unlessEnd_eq, hend, hnull]
  · simp [SameOutcome, unlessEnd_eq, hend]

theorem sameOutcome_pure {agree : α → β → Prop} {value : α} {value' : β} :
    SameOutcome agree (pure value) (pure value') r ↔ agree value value' := and_iff_left rfl

/-- Two programs that begin alike. -/
theorem sameOutcome_bind {agree : β → γ → Prop} {program : ReaderM α} {next : α → ReaderM β} {next' : α → ReaderM γ} :
    SameOutcome agree (program >>= next) (program >>= next') r ↔
      wp program (fun value r' ↦ SameOutcome agree (next value) (next' value) r') (fun _ _ ↦ True) r := by
  simp only [SameOutcome, wp, bind, EStateM.bind]
  cases program r <;> rfl

/-- Where one call throws, the other one has to. -/
theorem sameOutcome_throw {agree : α → β → Prop} {read : ReaderM α} {error : ReadError} :
    SameOutcome agree read (throw error) r ↔ wp read (fun _ _ ↦ False) (fun _ _ ↦ True) r := by
  simp only [SameOutcome, wp]
  cases read r <;> rfl

/-- Two values of what one program returns. -/
theorem sameOutcome_map {agree : β → γ → Prop} (program : ReaderM α) (f : α → β) (g : α → γ)
    (h : ∀ value, agree (f value) (g value)) : SameOutcome agree (f <$> program) (g <$> program) r := by
  rw [map_eq_pure_bind, map_eq_pure_bind, sameOutcome_bind, wp]
  cases program r with
  | ok value r' => exact sameOutcome_pure.mpr (h value)
  | error error r' => trivial

/-- The usual pair of calls. -/
theorem sameOutcome_nullable [DecidableEq α] (null : α) (program : ReaderM α) :
    SameOutcome (ScalarType.Tells null) (unlessEnd null program) (nullable (· = null) program) r := by
  have hagree : SameOutcome (ScalarType.Tells null) (id <$> program)
      ((fun value ↦ if value = null then none else some value) <$> program) r :=
    sameOutcome_map program id _ fun _ ↦ rfl
  rw [id_map, map_eq_pure_bind] at hagree
  have hnull : ScalarType.Tells null null none := (if_pos rfl).symm
  exact (sameOutcome_unlessEnd hnull).mpr (.inr hagree)

/-- That the content has not ended is asked once or twice. -/
theorem nullable_unlessEnd {isNull : α → Prop} [DecidablePred isNull] (null : α) (program : ReaderM α) :
    nullable isNull (unlessEnd null program) = nullable isNull program := by
  funext r
  simp only [nullable, unlessEnd_eq]
  by_cases hend : r.dataPtr = r.contentEnd
  · rw [if_pos hend, if_pos hend]
  · rw [if_neg hend, if_neg hend]
    simp only [bind, EStateM.bind, unlessEnd_eq, if_neg hend]

/-- The same in a signed type, if null is the only value that becomes null. -/
theorem sameOutcome_signed {size null : ℕ} {signedNull : ℤ} {program : ReaderM ℕ}
    (hnull : wp program (fun value _ ↦ signed size value = signedNull ↔ value = null) (fun _ _ ↦ True) r) :
    SameOutcome (ScalarType.TellsSigned size null) (unlessEnd null program)
      (nullable (· = signedNull) (do return signed size (← unlessEnd null program))) r := by
  simp only [SameOutcome, nullable, bind, EStateM.bind, unlessEnd_eq, pure, EStateM.pure]
  by_cases hplace : r.dataPtr = r.contentEnd
  · rw [if_pos hplace, if_pos hplace]
    exact ⟨(if_pos rfl).symm, rfl⟩
  · rw [if_neg hplace, if_neg hplace]
    cases hrun : program r with
    | ok value r' =>
      rw [wp_ok hrun] at hnull
      exact ⟨if_congr hnull rfl rfl, rfl⟩
    | error error r' => trivial

theorem sameOutcome_decimal :
    SameOutcome ScalarType.TellsDecimal (readDecimal cls) (readNullableDecimal cls) r := by
  simp only [SameOutcome, readDecimal, readNullableDecimal, nullable, bind, EStateM.bind, unlessEnd_eq, pure,
    EStateM.pure]
  by_cases hend : r.dataPtr = r.contentEnd
  · rw [if_pos hend, if_pos hend]
    exact ⟨(if_pos Decimal.isNaN_value_null).symm, rfl⟩
  · rw [if_neg hend, if_neg hend]
    cases getDecimal cls r with
    | ok decimal r' => exact ⟨rfl, rfl⟩
    | error error r' => trivial

/-- With the test the wrong way round nothing is told right. -/
theorem sameOutcome_inverted_iff [DecidableEq α] (null : α) (program : ReaderM α) :
    SameOutcome (ScalarType.Tells null) (unlessEnd null program) (nullable (· ≠ null) program) r ↔
      r.dataPtr = r.contentEnd ∨ returns program r = false := by
  simp only [SameOutcome, nullable, unlessEnd_eq, returns, bind, EStateM.bind, pure, EStateM.pure]
  by_cases hend : r.dataPtr = r.contentEnd
  · simp [hend, ScalarType.Tells]
  · rw [if_neg hend, if_neg hend]
    cases program r with
    | ok value r' =>
      by_cases hnull : value = null <;> simp [hend, hnull, ScalarType.Tells]
    | error error r' => simp [hend]

/-! ## All types -/

theorem returns_loadBE {rest : List UInt8} {left : ℤ} {n : ℕ} (hn : n ≤ 0x200)
    (h : Ready cls r r.dataPtr rest left) (hroomy : Roomy r) :
    returns (loadBE cls n) r = false ↔ ¬ Within cls rest left n := by
  have hspec := loadBE_spec hn h hroomy
  rw [returns]
  cases hrun : loadBE cls n r with
  | ok value r' =>
    rw [wp_ok hrun] at hspec
    simp [hspec.2.2]
  | error error r' =>
    rw [wp_error hrun] at hspec
    simp [hspec]

variable {message : List UInt8} {n consumed left : ℕ}

theorem InMessage.atEnd_iff (h : InMessage cls r message n consumed left) : r.dataPtr = r.contentEnd ↔ left = 0 := by
  have hend := h.contentEnd_eq
  omega

/-- Whatever is done before. -/
theorem wp_bind_any {program : ReaderM α} {next : α → ReaderM β} {post : β → DataReader → Prop}
    (h : ∀ value r', wp (next value) post (fun _ _ ↦ True) r') :
    wp (program >>= next) post (fun _ _ ↦ True) r := by
  rw [wp_bind, wp]
  cases program r with
  | ok value r' => exact h value r'
  | error error r' => trivial

theorem unpackUInt_range (size : ℕ) (header : ReaderM ℕ) :
    wp (do return unpackUInt size (← header)) (fun value _ ↦ value < 2 ^ (8 * size - 1)) (fun _ _ ↦ True) r :=
  wp_bind_any fun _ _ ↦ wp_pure.mpr (Nat.mod_lt _ (Nat.two_pow_pos _))

theorem getInterval_range : wp (getInterval cls) (fun value _ ↦ value < 2 ^ 32) (fun _ _ ↦ True) r := by
  apply wp_bind_any
  intro header r₁
  have hlow : header % 0x40 < 0x40 := Nat.mod_lt _ (by decide)
  dsimp only
  split
  · rw [wp_pure]
    omega
  · rw [wp_pure]
    omega
  · rw [wp_pure]
    omega
  · refine wp_bind_any fun p r₂ ↦ wp_bind_any fun found r₃ ↦ ?_
    have hlt := ofBigEndian_lt (ByteMemory.bytes found.mem p 4)
    rw [ByteMemory.length_bytes] at hlt
    rw [wp_pure]
    exact hlt

/-- The test is right, whatever there is to be read. -/
theorem overloadsAgree_of_floatSize {type : ScalarType} (h : type.floatSize = none) : OverloadsAgree cls type r := by
  cases type with
  | float32 => exact absurd h (Option.some_ne_none 4)
  | float64 => exact absurd h (Option.some_ne_none 8)
  | decimal => exact sameOutcome_decimal
  | pUInt30 =>
    have hagree := @sameOutcome_nullable ℕ r _ Writer.uint30Null (do return unpackUInt 4 (← getPackedUInt cls 4))
    rwa [← nullable_unlessEnd Writer.uint30Null] at hagree
  | pUInt61 =>
    have hagree := @sameOutcome_nullable ℕ r _ Writer.uint61Null (do return unpackUInt 8 (← getPackedUInt cls 8))
    rwa [← nullable_unlessEnd Writer.uint61Null] at hagree
  | interval =>
    have hagree := @sameOutcome_nullable ℕ r _ 0 (getInterval cls)
    rwa [← nullable_unlessEnd 0] at hagree
  | signedPUInt30 =>
    refine sameOutcome_signed (wp_mono (unpackUInt_range 4 (getPackedUInt cls 4)) (fun value _ hlt ↦ ?_) fun _ _ ↦ id)
    have hnonneg : signed 4 value = value := if_pos hlt
    rw [hnonneg, Nat.cast_inj]
  | signedPUInt61 =>
    refine sameOutcome_signed (wp_mono (unpackUInt_range 8 (getPackedUInt cls 8)) (fun value _ hlt ↦ ?_) fun _ _ ↦ id)
    have hnonneg : signed 8 value = value := if_pos hlt
    rw [hnonneg, Nat.cast_inj]
  | signedInterval =>
    refine sameOutcome_signed (wp_mono getInterval_range (fun value _ hlt ↦ ?_) fun _ _ ↦ id)
    simp only [signed]
    split <;> omega
  | timestamp =>
    have hagree := @sameOutcome_nullable ℤ r _ Writer.timestampNull (loadSigned cls 8)
    rwa [← nullable_unlessEnd (-2 ^ 63)] at hagree
  | wchar => exact sameOutcome_nullable (0 : ℕ) (getUInt16 cls)
  | int8 => exact sameOutcome_nullable (-0x80 : ℤ) (loadSigned cls 1)
  | int16 => exact sameOutcome_nullable (-2 ^ 15 : ℤ) (loadSigned cls 2)
  | int32 => exact sameOutcome_nullable (-2 ^ 31 : ℤ) (loadSigned cls 4)
  | int48 => exact sameOutcome_nullable (-2 ^ 47 : ℤ) (loadSigned cls 6)
  | int64 => exact sameOutcome_nullable (-2 ^ 63 : ℤ) (loadSigned cls 8)
  | enum8 => exact sameOutcome_nullable (-1 : ℤ) (loadSigned cls 1)
  | enum16 => exact sameOutcome_nullable (-1 : ℤ) (loadSigned cls 2)
  | enum32 => exact sameOutcome_nullable (-1 : ℤ) (loadSigned cls 4)
  | enum64 => exact sameOutcome_nullable (-1 : ℤ) (loadSigned cls 8)

theorem overloadsAgree_float_iff {type : ScalarType} {size : ℕ} (hsize : type.floatSize = some size)
    (h : InMessage cls r message n consumed left) :
    OverloadsAgree cls type r ↔ left = 0 ∨ ¬ Within cls (message.drop consumed) left size := by
  cases type with
  | float32 =>
    obtain rfl : 4 = size := Option.some.inj hsize
    rw [← h.atEnd_iff, ← returns_loadBE (by decide) h.ready h.hasRoom]
    exact sameOutcome_inverted_iff float32Null (loadBE cls 4)
  | float64 =>
    obtain rfl : 8 = size := Option.some.inj hsize
    rw [← h.atEnd_iff, ← returns_loadBE (by decide) h.ready h.hasRoom]
    exact sameOutcome_inverted_iff float64Null (loadBE cls 8)
  | _ => exact absurd hsize (Option.some_ne_none size).symm

/-- The calls of a type agree at a place of a message, unless it is a floating-point type and there is a
number to be read. -/
theorem overloadsAgree_iff (type : ScalarType) (h : InMessage cls r message n consumed left) :
    OverloadsAgree cls type r ↔
      ∀ size ∈ type.floatSize, left = 0 ∨ ¬ Within cls (message.drop consumed) left size := by
  cases hsize : type.floatSize with
  | none => simp [overloadsAgree_of_floatSize hsize]
  | some size => simp [overloadsAgree_float_iff hsize h]

/-- A number of 16 bits. -/
theorem overloadsAgree_int16 :
    ∃ r, InMessage .msg r [0x12, 0x34] 2 0 2 ∧ OverloadsAgree .msg .int16 r := by
  obtain ⟨r, hin⟩ : ∃ r, InMessage .msg r [0x12, 0x34] 2 0 2 := ⟨_, atMessage_inMessage (by decide)⟩
  exact ⟨r, hin, (overloadsAgree_iff .int16 hin).mpr fun size hsize ↦ absurd hsize (Option.not_mem_none size)⟩

/-- 1.5, in 32 bits. -/
theorem overloads_disagree_float32 :
    ∃ r, InMessage .msg r [0x3F, 0xC0, 0, 0] 4 0 4 ∧ ¬ OverloadsAgree .msg .float32 r := by
  obtain ⟨r, hin⟩ : ∃ r, InMessage .msg r [0x3F, 0xC0, 0, 0] 4 0 4 := ⟨_, atMessage_inMessage (by decide)⟩
  refine ⟨r, hin, fun hagree ↦ ?_⟩
  rcases (overloadsAgree_float_iff rfl hin).mp hagree with hend | hshort
  · exact absurd hend (by decide)
  · exact hshort (within_iff.mpr ⟨by decide, fun _ ↦ by decide⟩)

end DxApi.Reader
