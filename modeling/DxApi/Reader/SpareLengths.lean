import DxApi.Reader.Alphanumeric
import DxApi.Reader.Overloads

/-!
# Lengths that a field does not have

The length of an alphanumeric value has as many bits as the lengths of its field and null need, and so
there may be codes that are neither. The call that returns a number refuses them. The call that returns
a string takes them for lengths.
-/

namespace DxApi.Reader

open Exec ByteOrder ByteMemory Writer

variable {cls : ReaderClass} {r : DataReader} {rest content : List UInt8} {left : ℤ} {fieldSize : ℕ}

/-! ## Contents -/

/-- The bytes of the length. -/
def lengthBytes (fieldSize : ℕ) : ℕ := (sizeBits fieldSize + 7) / 8

/-- The bytes of a value of `len` characters. -/
def stringBytes (fieldSize len : ℕ) : ℕ := (sizeBits fieldSize + len * 6 + 7) / 8

/-- The code in the first bits of a content. -/
def lengthCode (fieldSize : ℕ) (content : List UInt8) : ℕ :=
  ofBigEndian (content.take (lengthBytes fieldSize)) / 2 ^ (8 * lengthBytes fieldSize - sizeBits fieldSize)

/-- The reader is in a message, and `content` is what is left to be read of it. -/
def Inside (cls : ReaderClass) (r : DataReader) (content : List UInt8) : Prop :=
  ∃ message n consumed left, InMessage cls r message n consumed left ∧ content = (message.drop consumed).take left

theorem sizeBits_le_thirtyTwo (fieldSize : ℕ) : sizeBits fieldSize ≤ 32 := by
  rw [sizeBits, Nat.size_le]
  exact Nat.mod_lt _ (by decide)

theorem within_take {count n : ℕ} (hmsg : cls.isMsg) :
    Within cls rest n count ↔ count ≤ (rest.take n).length := by
  rw [within_iff, List.length_take]
  constructor
  · intro hwithin
    have hle := hwithin.2 hmsg
    omega
  · intro hle
    exact ⟨by omega, fun _ ↦ by omega⟩

theorem lengthBytes_le_four (fieldSize : ℕ) : lengthBytes fieldSize ≤ 4 := by
  have hbits := sizeBits_le_thirtyTwo fieldSize
  rw [lengthBytes]
  omega

/-- The length that is looked at is the code of the content. -/
theorem alphanumericLength_eq_code {mem : Memory} {p : ℤ}
    (hbytes : ByteMemory.bytes mem p (lengthBytes fieldSize) = rest.take (lengthBytes fieldSize)) :
    alphanumericLength fieldSize (ofBigEndian (ByteMemory.bytes mem p 4)) = lengthCode fieldSize rest := by
  have hlength : (rest.take (lengthBytes fieldSize)).length = lengthBytes fieldSize := by
    rw [← hbytes, length_bytes]
  have hle := lengthBytes_le_four fieldSize
  have hloaded := @loaded_div mem p (rest.take (lengthBytes fieldSize)) 4 (by rwa [hlength]) (by rwa [hlength])
  have hshift : 2 ^ (32 - sizeBits fieldSize) =
      256 ^ (4 - lengthBytes fieldSize) * 2 ^ (8 * lengthBytes fieldSize - sizeBits fieldSize) := by
    rw [show 256 = 2 ^ 8 by rfl, ← pow_mul, ← pow_add]
    congr 1
    rw [lengthBytes] at hle ⊢
    omega
  rw [hlength] at hloaded
  rw [alphanumericLength, Nat.shiftRight_eq_div_pow, hshift, ← Nat.div_div_eq_div_mul, hloaded, lengthCode]

theorem peekLength_spec (h : Ready cls r r.dataPtr rest left) (hroomy : Roomy r) :
    wp (peekLength cls fieldSize)
      (fun len r' ↦ len = lengthCode fieldSize rest ∧ Took cls r r' rest left ∧
        Within cls rest left (lengthBytes fieldSize))
      (fun _ _ ↦ ¬ Within cls rest left (lengthBytes fieldSize)) r := by
  have hle := lengthBytes_le_four fieldSize
  apply wp_call (peek_spec h hroomy.hasBuffer)
  · intro p r' hpeek
    obtain ⟨hmoved, hready, hbytes, hwithin⟩ := hpeek
    rw [wp_bind, wp_get, wp_pure]
    exact ⟨alphanumericLength_eq_code hbytes, ⟨hmoved, hready⟩, hwithin⟩
  · intro _ _ hfail
    rcases hfail with hexceeds | hsmall
    · exact fun hwithin ↦ hwithin hexceeds
    · refine absurd (hroomy.hasRoom false ?_) hsmall
      rw [lengthBytes] at hle
      omega

theorem length_unpackCharacters (mem : Memory) (len accumulator : ℕ) (bitIndex readPtr : ℤ) :
    (unpackCharacters mem len accumulator bitIndex readPtr).length = len := by
  induction len generalizing accumulator bitIndex readPtr with
  | zero => rfl
  | succ len ih =>
    rw [unpackCharacters]
    split
    · rw [List.length_cons, ih]
    · rw [List.length_cons, ih]

/-- The string is as long as its code says, if there is a string. -/
theorem getAlphanumeric_spec (h : Ready cls r r.dataPtr rest left) (hroomy : Roomy r) :
    wp (getAlphanumeric cls fieldSize)
      (fun str _ ↦ (str = none → lengthCode fieldSize rest = sizeCodes fieldSize) ∧
        ∀ s ∈ str, s.length = lengthCode fieldSize rest ∧ lengthCode fieldSize rest ≠ sizeCodes fieldSize ∧
          Within cls rest left (stringBytes fieldSize (lengthCode fieldSize rest)))
      (fun _ _ ↦ Within cls rest left (lengthBytes fieldSize) → lengthCode fieldSize rest ≠ sizeCodes fieldSize →
        HasRoom cls false (stringBytes fieldSize (lengthCode fieldSize rest)) r →
        ¬ Within cls rest left (stringBytes fieldSize (lengthCode fieldSize rest))) r := by
  rw [getAlphanumeric_eq]
  apply wp_call (peekLength_spec h hroomy)
  · intro len r₁ hlen
    obtain ⟨rfl, htook, -⟩ := hlen
    have hbuffer := (htook.moved.roomy.mpr hroomy).hasBuffer
    by_cases hnull : sizeCodes fieldSize = lengthCode fieldSize rest
    · rw [if_pos hnull]
      apply wp_call (skip_spec htook.ready hbuffer)
      · intro _ r₂ _
        rw [wp_pure]
        exact ⟨fun _ ↦ hnull.symm, fun s hs ↦ absurd hs (Option.not_mem_none s)⟩
      · exact fun _ _ _ _ hne ↦ absurd hnull.symm hne
    · rw [if_neg hnull]
      apply wp_call (bytes_spec htook.ready hbuffer)
      · intro p r₂ hbytes
        rw [wp_bind, wp_get, wp_pure]
        refine ⟨fun hnone ↦ absurd hnone (Option.some_ne_none _), fun s hs ↦ ?_⟩
        obtain rfl := Option.some.inj hs
        exact ⟨length_unpackCharacters _ _ _ _ _, Ne.symm hnull, hbytes.2.2.2⟩
      · intro _ _ hfail _ _ hroom hwithin
        rcases hfail with hexceeds | hsmall
        · exact hwithin hexceeds
        · exact hsmall (htook.moved.hasRoom.mpr hroom)
  · exact fun _ _ hshort hwithin ↦ absurd hwithin hshort

/-! ## What the two calls make of a length -/

/-- The string is at most as long as the field. -/
def NeverLonger (cls : ReaderClass) (fieldSize : ℕ) (r : DataReader) : Prop :=
  wp (readAlphanumeric fieldSize cls) (fun str _ ↦ ∀ s ∈ str, s.length ≤ fieldSize) (fun _ _ ↦ True) r

/-- Both are null, or none is. -/
def NullAlike (str : Option (List ℕ)) (value : ℕ) : Prop := str = none ↔ value = alphanumericNull 8

/-- The calls return, throw and read null alike, and take the same bytes. -/
def ReadsAlike (cls : ReaderClass) (fieldSize : ℕ) (r : DataReader) : Prop :=
  SameOutcome NullAlike (readAlphanumeric fieldSize cls) (readAlphanumericAs 8 fieldSize cls) r

/-- The size is respected wherever this is the content. -/
def SizeRespected (fieldSize : ℕ) (content : List UInt8) : Prop :=
  ∀ cls r, Inside cls r content → NeverLonger cls fieldSize r ∧ (fieldSize ≤ 10 → ReadsAlike cls fieldSize r)

/-- The content has no spare code with as many characters as it says, and no string whose number is null. -/
structure LegalLength (fieldSize : ℕ) (content : List UInt8) : Prop where
  not_spare : lengthBytes fieldSize ≤ content.length → sizeCodes fieldSize < lengthCode fieldSize content →
    content.length < stringBytes fieldSize (lengthCode fieldSize content)
  not_null : fieldSize ≤ 10 → lengthCode fieldSize content < sizeCodes fieldSize →
    stringBytes fieldSize (lengthCode fieldSize content) ≤ content.length →
    ofBigEndian (content.take (stringBytes fieldSize (lengthCode fieldSize content))) ≠
      2 ^ (8 * stringBytes fieldSize (lengthCode fieldSize content) - 1)

/-! ## The string -/

theorem lengthBytes_le_stringBytes (fieldSize len : ℕ) : lengthBytes fieldSize ≤ stringBytes fieldSize len := by
  rw [lengthBytes, stringBytes]
  omega

theorem take_take_of_le {size n : ℕ} (h : size ≤ (rest.take n).length) : (rest.take n).take size = rest.take size := by
  rw [List.length_take] at h
  rw [List.take_take, min_eq_left (by omega)]

theorem lengthCode_take {n : ℕ} (h : lengthBytes fieldSize ≤ (rest.take n).length) :
    lengthCode fieldSize (rest.take n) = lengthCode fieldSize rest := by
  rw [lengthCode, take_take_of_le h, lengthCode]

/-- A code that is no length is the code of null or a spare one. -/
theorem lengthCode_cases (hfield : fieldSize < 2 ^ 32) (content : List UInt8) :
    lengthCode fieldSize content ≤ fieldSize ∨ sizeCodes fieldSize ≤ lengthCode fieldSize content := by
  rw [sizeCodes]
  omega

variable {message : List UInt8} {n consumed count : ℕ}

theorem neverLonger_of_notSpare (hfield : fieldSize < 2 ^ 32) (h : InMessage cls r message n consumed count)
    (hcontent : LegalLength fieldSize ((message.drop consumed).take count)) : NeverLonger cls fieldSize r := by
  rw [NeverLonger, readAlphanumeric, wp_unlessEnd]
  refine ⟨fun _ s hs ↦ absurd hs (Option.not_mem_none s), fun _ ↦ wp_mono (getAlphanumeric_spec h.ready h.hasRoom)
    (fun str _ hstr s hs ↦ ?_) fun _ _ _ ↦ trivial⟩
  obtain ⟨hlength, hne, hwithin⟩ := hstr.2 s hs
  rw [within_take h.isMsg] at hwithin
  have hheader := (lengthBytes_le_stringBytes fieldSize _).trans hwithin
  have hspare := hcontent.not_spare hheader
  rw [lengthCode_take hheader] at hspare
  rw [hlength]
  rcases lengthCode_cases hfield (message.drop consumed) with hle | hge
  · exact hle
  · have hshort := hspare (lt_of_le_of_ne hge hne.symm)
    omega

theorem lengthCode_nil (fieldSize : ℕ) : lengthCode fieldSize [] = 0 := by
  rw [lengthCode, List.take_nil]
  exact Nat.zero_div _

theorem lengthCode_lt (fieldSize : ℕ) (content : List UInt8) : lengthCode fieldSize content < 2 ^ sizeBits fieldSize := by
  have hlt := ofBigEndian_lt (content.take (lengthBytes fieldSize))
  have hle := List.length_take_le (lengthBytes fieldSize) content
  have hpow : 256 ^ (content.take (lengthBytes fieldSize)).length ≤ 256 ^ lengthBytes fieldSize :=
    Nat.pow_le_pow_right (by decide) hle
  have hbits : 256 ^ lengthBytes fieldSize = 2 ^ (8 * lengthBytes fieldSize - sizeBits fieldSize) * 2 ^ sizeBits fieldSize := by
    rw [show 256 = 2 ^ 8 by rfl, ← pow_mul, ← pow_add]
    congr 1
    rw [lengthBytes]
    omega
  apply Nat.div_lt_of_lt_mul
  rw [← hbits]
  exact hlt.trans_le hpow

theorem lt_of_spare (hfield : fieldSize < 2 ^ 32) (hspare : sizeCodes fieldSize < lengthCode fieldSize content) :
    fieldSize < lengthCode fieldSize content := by
  have hcases : fieldSize = 2 ^ 32 - 1 ∨ fieldSize + 1 < 2 ^ 32 := by omega
  rcases hcases with hlast | hlt
  · -- the length of the largest field has no bits
    have hlt := lengthCode_lt fieldSize content
    have hbits : sizeBits (2 ^ 32 - 1) = 0 := by decide +kernel
    rw [hlast, hbits] at hlt
    rw [hlast] at hspare
    omega
  · have hcodes : sizeCodes fieldSize = fieldSize + 1 := Nat.mod_eq_of_lt hlt
    omega

/-- With room in the buffer the string is as long as a spare code says. -/
theorem notSpare_of_neverLonger (hfield : fieldSize < 2 ^ 32) (h : InMessage cls r message n consumed count)
    (hroom : ∀ size ≤ ((message.drop consumed).take count).length, HasRoom cls false size r)
    (hnever : NeverLonger cls fieldSize r)
    (hheader : lengthBytes fieldSize ≤ ((message.drop consumed).take count).length)
    (hspare : sizeCodes fieldSize < lengthCode fieldSize ((message.drop consumed).take count)) :
    ((message.drop consumed).take count).length <
      stringBytes fieldSize (lengthCode fieldSize ((message.drop consumed).take count)) := by
  by_contra hshort
  have hlonger := lt_of_spare hfield hspare
  have hmore : ¬ r.dataPtr = r.contentEnd := by
    rw [h.atEnd_iff]
    intro hend
    rw [hend, List.take_zero, lengthCode_nil] at hlonger
    exact absurd hlonger (Nat.not_lt_zero fieldSize)
  have hroomy := hroom _ (not_lt.mp hshort)
  rw [not_lt, lengthCode_take hheader, ← within_take h.isMsg] at hshort
  rw [lengthCode_take hheader] at hspare hlonger hroomy
  rw [← within_take h.isMsg] at hheader
  rw [NeverLonger, readAlphanumeric, wp_unlessEnd] at hnever
  have hboth := wp_and (getAlphanumeric_spec h.ready h.hasRoom) (hnever.2 hmore)
  cases hrun : getAlphanumeric cls fieldSize r with
  | ok str r' =>
    rw [wp_ok hrun] at hboth
    obtain ⟨⟨hnull, hlength⟩, hle⟩ := hboth
    cases str with
    | none => exact hspare.ne (hnull rfl).symm
    | some s =>
      have hlong := (hlength s rfl).1
      have hfits := hle s rfl
      omega
  | error error r' =>
    rw [wp_error hrun] at hboth
    exact hboth.1 hheader hspare.ne' hroomy hshort

/-! ## The number -/

/-- A number of 64 bits is null if its bytes are. -/
theorem mul_eq_alphanumericNull_iff {x size : ℕ} (hpositive : 0 < size) (hle : size ≤ 8) :
    x * 256 ^ (8 - size) = alphanumericNull 8 ↔ x = 2 ^ (8 * size - 1) := by
  have hnull : alphanumericNull 8 = 2 ^ (8 * size - 1) * 256 ^ (8 - size) := by
    rw [alphanumericNull, show 256 = 2 ^ 8 by rfl, ← pow_mul, ← pow_add]
    congr 1
    omega
  rw [hnull, Nat.mul_left_inj (Nat.pow_pos (by decide)).ne']

theorem nullAlike_null : NullAlike none (alphanumericNull 8) := by simp [NullAlike]

/-- The part of `getAlphanumeric` behind the length. -/
def getAlphanumericOf (cls : ReaderClass) (fieldSize len : ℕ) : ReaderM (Option (List ℕ)) :=
  if sizeCodes fieldSize = len then do
    skip cls (lengthBytes fieldSize)
    return none
  else do
    let p ← bytes cls (stringBytes fieldSize len)
    let r ← get
    return some (unpackCharacters r.mem len (ofBigEndian (ByteMemory.bytes r.mem p 4))
      (32 - sizeBits fieldSize - 6) (p + 4))

variable {len : ℕ}

theorem wp_bytes_iff {post : ℤ → DataReader → Prop} {size : ℕ} (hsize : size ≤ 0x200)
    (h : Ready cls r r.dataPtr rest left) (hroomy : Roomy r) (condition : Prop)
    (hpost : ∀ p r', ByteMemory.bytes r'.mem p size = rest.take size → Within cls rest left size →
      (post p r' ↔ condition)) :
    wp (bytes cls size) post (fun _ _ ↦ True) r ↔ (Within cls rest left size → condition) := by
  have hspec := bytes_spec (n := size) h hroomy.hasBuffer
  cases hrun : bytes cls size r with
  | ok p r' =>
    rw [wp_ok hrun] at hspec ⊢
    have hwithin : Within cls rest left size := hspec.2.2.2
    rw [hpost p r' hspec.2.2.1 hwithin, forall_prop_of_true hwithin]
  | error error r' =>
    rw [wp_error hrun] at hspec ⊢
    have hshort : ¬ Within cls rest left size := by
      intro hwithin
      rcases hspec with hexceeds | hsmall
      · exact hwithin hexceeds
      · exact hsmall (hroomy.hasRoom false (by omega))
    simp [hshort]

/-- Behind the length the calls go on alike, unless the length is a spare code and there are as many
characters, or the characters are the number null. -/
theorem getAlphanumericOf_alike_iff (hfield : fieldSize ≤ 10) (hlen : len < 16)
    (h : Ready cls r r.dataPtr rest left) (hroomy : Roomy r) :
    SameOutcome NullAlike (getAlphanumericOf cls fieldSize len) (getAlphanumericAsOf cls 8 fieldSize len) r ↔
      (Within cls rest left (stringBytes fieldSize len) →
        ¬ sizeCodes fieldSize < len ∧ (len < sizeCodes fieldSize →
          ofBigEndian (rest.take (stringBytes fieldSize len)) ≠ 2 ^ (8 * stringBytes fieldSize len - 1))) := by
  have hbits := sizeBits_le hfield
  have hpositive := sizeBits_pos hfield
  have hcodes := sizeCodes_eq hfield
  have hsize : stringBytes fieldSize len = (sizeBits fieldSize + 7 + 6 * len) / 8 := by
    rw [stringBytes]
    congr 1
    omega
  have hsmall : stringBytes fieldSize len ≤ 0x200 := by
    rw [hsize]
    omega
  rw [getAlphanumericOf, getAlphanumericAsOf, ← hsize]
  rcases Nat.lt_trichotomy len (sizeCodes fieldSize) with hlt | heq | hgt
  · rw [if_neg hlt.ne', if_neg (not_le.mpr hlt), sameOutcome_bind]
    apply wp_bytes_iff hsmall h hroomy
    intro p r' hbytes hwithin
    have hlength : (rest.take (stringBytes fieldSize len)).length = stringBytes fieldSize len := by
      rw [← hbytes, length_bytes]
    have hmasked := @masked_eq r'.mem p (rest.take (stringBytes fieldSize len)) (by omega) (by rwa [hlength])
    rw [hlength] at hmasked
    rw [sameOutcome_bind, wp_get, sameOutcome_pure, NullAlike, hmasked, mul_eq_alphanumericNull_iff (by omega) (by omega)]
    simp [hlt, hlt.le]
  · have hheader : lengthBytes fieldSize = 1 := by
      rw [lengthBytes]
      omega
    rw [if_pos heq.symm, if_pos heq.ge, if_pos heq, hheader, sameOutcome_bind]
    constructor
    · exact fun _ _ ↦ ⟨by omega, fun hlt ↦ by omega⟩
    · intro _
      apply wp_mono (skip_spec h hroomy.hasBuffer)
      · exact fun _ _ _ ↦ sameOutcome_pure.mpr nullAlike_null
      · exact fun _ _ _ ↦ trivial
  · rw [if_neg hgt.ne, if_pos hgt.le, if_neg hgt.ne', sameOutcome_throw, wp_bind]
    apply wp_bytes_iff hsmall h hroomy
    intro p r' _ _
    rw [wp_bind, wp_get, wp_pure]
    simp [hgt]

theorem readsAlike_iff (hfield : fieldSize ≤ 10) (h : InMessage cls r message n consumed count)
    (hcontent : content = (message.drop consumed).take count) :
    ReadsAlike cls fieldSize r ↔
      (stringBytes fieldSize (lengthCode fieldSize content) ≤ content.length →
        ¬ sizeCodes fieldSize < lengthCode fieldSize content ∧
        (lengthCode fieldSize content < sizeCodes fieldSize →
          ofBigEndian (content.take (stringBytes fieldSize (lengthCode fieldSize content))) ≠
            2 ^ (8 * stringBytes fieldSize (lengthCode fieldSize content) - 1))) := by
  have hcodes := sizeCodes_eq hfield
  have hread := (@getAlphanumericAs_eq cls 8 fieldSize (by omega) (by omega)).2
  have hbits := sizeBits_le hfield
  have hheader := lengthBytes_le_stringBytes fieldSize (lengthCode fieldSize content)
  rw [ReadsAlike, readAlphanumeric, readAlphanumericAs, sameOutcome_unlessEnd nullAlike_null, hread,
    getAlphanumeric_eq, sameOutcome_bind]
  by_cases hend : r.dataPtr = r.contentEnd
  · have hpositive := sizeBits_pos hfield
    rw [h.atEnd_iff.mp hend, List.take_zero] at hcontent
    have hnone : ¬ stringBytes fieldSize (lengthCode fieldSize content) ≤ content.length := by
      rw [lengthBytes] at hheader
      rw [hcontent] at hheader ⊢
      rw [List.length_nil]
      omega
    simp [hend, hnone]
  · have hpeek := @peekLength_spec cls r _ _ fieldSize h.ready h.hasRoom
    rw [or_iff_right hend]
    cases hrun : peekLength cls fieldSize r with
    | ok len r₁ =>
      rw [wp_ok hrun] at hpeek ⊢
      obtain ⟨rfl, htook, hwithin⟩ := hpeek
      rw [within_take h.isMsg, ← hcontent] at hwithin
      have hcode : lengthCode fieldSize content = lengthCode fieldSize (message.drop consumed) := by
        rw [hcontent] at hwithin ⊢
        exact lengthCode_take hwithin
      have hlt : lengthCode fieldSize content < 16 :=
        (lengthCode_lt fieldSize content).trans_le (Nat.pow_le_pow_right (by decide) hbits)
      have halike := getAlphanumericOf_alike_iff hfield hlt htook.ready (htook.moved.roomy.mpr h.hasRoom)
      rw [within_take h.isMsg, ← hcontent] at halike
      rw [← hcode]
      refine Iff.trans halike (forall_congr' fun hbytes ↦ ?_)
      generalize stringBytes fieldSize (lengthCode fieldSize content) = size at *
      rw [hcontent] at hbytes
      rw [hcontent, take_take_of_le hbytes]
    | error error r₁ =>
      rw [wp_error hrun] at hpeek ⊢
      rw [within_take h.isMsg, ← hcontent] at hpeek
      have hnone : ¬ stringBytes fieldSize (lengthCode fieldSize content) ≤ content.length := by omega
      simp [hnone]

/-! ## All contents -/

/-- A reader whose buffer holds any part of the content at once. -/
theorem exists_inside (hcontent : content.length < 2 ^ 32) :
    ∃ r, InMessage .msg r content content.length 0 content.length ∧
      ∀ size ≤ content.length, HasRoom .msg false size r := by
  let reader := constructBase (messageReader content) 4096 (content.length + 0x400) 0 ⟨content, []⟩
  have hbetween : Between .msg reader content :=
    ⟨(at_plain (by decide)).mpr ⟨le_rfl, by simp [reader, constructBase], by simp [reader, constructBase]; omega,
      by simp [reader, constructBase]⟩, rfl⟩
  have hplaced : Placed reader content.length := by
    constructor
    · simp [reader, constructBase]
    · simp only [reader, constructBase, noContentLimit]
      omega
  have hspec := hbetween.setMessageSize (by decide) hplaced
  rw [Reader.setMessageSize, wp_modify] at hspec
  refine ⟨_, hspec, fun size hsize ↦ ?_⟩
  have hplain : ¬ ReaderClass.msg.isChunked := by decide
  rw [HasRoom, contiguous, if_neg hplain, if_neg Bool.false_ne_true]
  simp only [reader, constructBase]
  omega

/-- The size is respected exactly of contents without a spare length and without the string that is null. -/
theorem sizeRespected_iff (fieldSize : UInt32) (hcontent : content.length < 2 ^ 32) :
    SizeRespected fieldSize.toNat content ↔ LegalLength fieldSize.toNat content := by
  have hfield := fieldSize.toNat_lt
  constructor
  · intro hrespected
    obtain ⟨r, hin, hroom⟩ := exists_inside hcontent
    have hall : content = (content.drop 0).take content.length := by rw [List.drop_zero, List.take_length]
    obtain ⟨hnever, halike⟩ := hrespected .msg r ⟨content, _, 0, _, hin, hall⟩
    constructor
    · have hspare := notSpare_of_neverLonger hfield hin (by rwa [← hall]) hnever
      rwa [← hall] at hspare
    · intro hsmall hlength hbytes
      exact ((readsAlike_iff hsmall hin hall).mp (halike hsmall) hbytes).2 hlength
  · intro hlegal cls r hinside
    obtain ⟨message, n, consumed, count, hin, rfl⟩ := hinside
    refine ⟨neverLonger_of_notSpare hfield hin hlegal, fun hsmall ↦ (readsAlike_iff hsmall hin rfl).mpr fun hbytes ↦ ?_⟩
    have hheader := (lengthBytes_le_stringBytes fieldSize.toNat _).trans hbytes
    exact ⟨fun hspare ↦ absurd (hlegal.not_spare hheader hspare) (not_lt.mpr hbytes),
      fun hlength ↦ hlegal.not_null hsmall hlength hbytes⟩

/-- A string of one character, in a field of ten. -/
theorem sizeRespected_short : SizeRespected (10 : UInt32).toNat [0x14, 0x40] := by
  refine (sizeRespected_iff 10 (by decide)).mpr ⟨fun _ hspare ↦ ?_, fun _ _ _ ↦ ?_⟩
  · exact absurd hspare (by decide +kernel)
  · decide +kernel

/-- A length of twelve, in a field of ten, and as many characters. -/
theorem size_exceeded : ¬ SizeRespected 10 (0xC0 :: List.replicate 9 0) := by
  intro hrespected
  obtain ⟨r, hin, -⟩ := @exists_inside (0xC0 :: List.replicate 9 0) (by decide)
  have halike := (hrespected .msg r ⟨_, _, 0, _, hin, rfl⟩).2 le_rfl
  have hcode : lengthCode 10 (0xC0 :: List.replicate 9 0) = 12 := by decide +kernel
  have hfits : stringBytes 10 12 ≤ (0xC0 :: List.replicate 9 (0 : UInt8)).length := by decide +kernel
  have hspare := (readsAlike_iff le_rfl hin rfl).mp halike
  simp only [List.drop_zero, List.take_length, hcode] at hspare
  exact (hspare hfits).1 (by decide)

end DxApi.Reader
