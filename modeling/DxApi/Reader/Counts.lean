import DxApi.Reader.Containers

/-!
# Array item counts

The number of items is written in front of the items, in one to five bytes of which the first says how
many there are. The writer takes any number: the header byte has room for two extra bytes only, and
the number itself is cut to 32 bits.
-/

namespace DxApi.Reader

open Exec ByteMemory ByteOrder Writer

variable {cls : ReaderClass} {r : DataReader} {message content data rest : List UInt8} {n consumed left nItems : ℕ}

/-- Inside any message, an array that begins with `data` is opened: the number of its items is `nItems`, and
what is ahead of the reader and inside its limit is `content`. -/
def ReadsArrayStart (data : List UInt8) (nItems : ℕ) (content : List UInt8) : Prop :=
  ∀ cls r message n consumed left rest, InMessage cls r message n consumed left →
    message.drop consumed = data ++ rest → data.length ≤ left → r.depth < readerMaxNestedObjects →
    wp (readArrayStart cls)
      (fun found r' ↦ found = some nItems ∧
        InMessage cls r' message n (consumed + (data.length - content.length)) content.length)
      (fun _ _ ↦ False) r

/-- The bytes of an array: its length, the number of items as the writer leaves it, and the items. -/
def arrayBytes (nItems : ℕ) (content : List UInt8) : List UInt8 :=
  packedUInt22 (packedCount (nItems % 2 ^ 32) ++ content).length ++ (packedCount (nItems % 2 ^ 32) ++ content)

theorem packedCount_ne_nil (value : ℕ) : packedCount value ≠ [] := by
  rw [packedCount]
  split
  · exact List.cons_ne_nil _ _
  · exact List.cons_ne_nil _ _

theorem readArrayStart_eq : readArrayStart cls = unlessEnd none (do
    if ← openContainer cls true then return some (← getPackedUInt22 cls) else return none) := rfl

/-- A number of twenty-two bits is read as it was written. -/
theorem readsArrayStart (hcount : nItems < 2 ^ 22)
    (hshort : (packedCount (nItems % 2 ^ 32) ++ content).length < 2 ^ 22) :
    ReadsArrayStart (arrayBytes nItems content) nItems content := by
  intro cls r message n consumed left rest h hdata hleft hdepth
  have hsame : nItems % 2 ^ 32 = nItems := Nat.mod_eq_of_lt (hcount.trans (by decide))
  have hpositive := List.length_pos_of_ne_nil (packedCount_ne_nil nItems)
  rw [arrayBytes, hsame] at hdata hleft ⊢
  rw [hsame] at hshort
  rw [List.length_append] at hleft ⊢
  rw [List.append_assoc] at hdata
  have hlength : 0 < (packedCount nItems ++ content).length := by
    rw [List.length_append]
    omega
  have hmore : r.dataPtr ≠ r.contentEnd := by
    rw [h.contentEnd_eq]
    omega
  rw [readArrayStart_eq]
  apply wp_beforeEnd hmore
  apply wp_call (h.openContainer true hdata hlength hshort hleft hdepth)
  · intro found r₁ h₁
    obtain ⟨rfl, hin, -⟩ := h₁
    have hcontent : message.drop (consumed + (packedUInt22 (packedCount nItems ++ content).length).length) =
        packedCount nItems ++ (content ++ rest) := by
      rw [← List.drop_drop, hdata, List.drop_left, List.append_assoc]
    rw [if_pos rfl]
    apply wp_call (hin.decode hcontent (by rw [List.length_append]; omega) (decodes_packedCount hcount))
    · intro value r₂ h₂
      obtain ⟨rfl, -, hin'⟩ := h₂
      rw [List.length_append, Nat.add_sub_cancel_left] at hin'
      refine wp_pure.mpr ⟨rfl, ?_⟩
      have hplace : consumed + ((packedUInt22 (packedCount value ++ content).length).length +
          (packedCount value ++ content).length - content.length) =
          consumed + (packedUInt22 (packedCount value ++ content).length).length + (packedCount value).length := by
        rw [List.length_append]
        omega
      rwa [hplace, List.length_append]
    · exact fun _ _ ↦ id
  · exact fun _ _ ↦ id

/-- No larger number is read. -/
theorem readArrayStart_lt (cls : ReaderClass) (r : DataReader) :
    wp (readArrayStart cls) (fun found _ ↦ ∀ value, found = some value → value < 2 ^ 22) (fun _ _ ↦ True) r := by
  rw [readArrayStart_eq, unlessEnd]
  apply wp_call wp_trivial
  · intro ended r₁ _
    rw [wp_ite]
    refine ⟨fun _ ↦ wp_pure.mpr fun value hvalue ↦ absurd hvalue (Option.some_ne_none value).symm, fun _ ↦ ?_⟩
    apply wp_call wp_trivial
    · intro opened r₂ _
      rw [wp_ite]
      refine ⟨fun _ ↦ ?_, fun _ ↦ wp_pure.mpr fun value hvalue ↦ absurd hvalue (Option.some_ne_none value).symm⟩
      apply wp_call (getPackedUInt22_lt cls r₂)
      · intro value r₃ hlt
        refine wp_pure.mpr fun value' hvalue ↦ ?_
        rwa [← Option.some.inj hvalue]
      · exact fun _ _ _ ↦ trivial
    · exact fun _ _ _ ↦ trivial
  · exact fun _ _ _ ↦ trivial

theorem readsArrayStart_iff (hshort : (packedCount (nItems % 2 ^ 32) ++ content).length < 2 ^ 22) :
    ReadsArrayStart (arrayBytes nItems content) nItems content ↔ nItems < 2 ^ 22 := by
  constructor
  · intro hreads
    have hlength : (arrayBytes nItems content).length < 2 ^ 32 := by
      have hextra := extraBytes_le (packedCount (nItems % 2 ^ 32) ++ content).length
      rw [arrayBytes, List.length_append, length_packedUInt22]
      omega
    have hahead := messageReader_ahead hlength
    obtain ⟨-, r, -, hin, hdepth, -⟩ := exists_ok_of_wp (hahead.setMessageSize rfl le_rfl)
    have hread := hreads .msg r (arrayBytes nItems content) _ 0 _ [] hin (List.append_nil _).symm le_rfl
      (hdepth.trans_lt (by decide))
    obtain ⟨found, r', -, hfound, hlt⟩ := exists_ok_of_wp
      (wp_mono (wp_and hread (readArrayStart_lt .msg r)) (fun _ _ ↦ id) fun _ _ ↦ And.left)
    exact hlt nItems hfound.1
  · exact fun hcount ↦ readsArrayStart hcount hshort

end DxApi.Reader

namespace DxApi.Writer

/-! ## The places of a body -/

/-- The part `place` of a body stands behind the bytes `front` of its encoding. -/
inductive Body.At (place : Body) : Body → List UInt8 → Prop
  | here : Body.At place place []
  | leaf {data beyond : List UInt8} {next : Body} {front : List UInt8} (h : Body.At place next front) :
    Body.At place (.leaf data beyond next) (data ++ front)
  | next {kind : Kind} {content next : Body} {front : List UInt8} (h : Body.At place next front) :
    Body.At place (.container kind content next)
      (packedUInt22 (kind.head ++ content.encode).length ++ (kind.head ++ content.encode) ++ front)
  | inside {kind : Kind} {content next : Body} {front : List UInt8} (h : Body.At place content front) :
    Body.At place (.container kind content next)
      (packedUInt22 (kind.head ++ content.encode).length ++ kind.head ++ front)

variable {body place : Body} {front : List UInt8}

theorem Body.At.encode (h : place.At body front) : ∃ behind, body.encode = front ++ (place.encode ++ behind) := by
  induction h with
  | here => exact ⟨[], (List.append_nil _).symm⟩
  | leaf h ih =>
    obtain ⟨behind, hbehind⟩ := ih
    exact ⟨behind, by rw [Body.encode, hbehind, List.append_assoc]⟩
  | next h ih =>
    obtain ⟨behind, hbehind⟩ := ih
    refine ⟨behind, ?_⟩
    rw [Body.encode, hbehind]
    simp only [List.append_assoc]
  | @inside kind content next front h ih =>
    obtain ⟨behind, hbehind⟩ := ih
    refine ⟨behind ++ next.encode, ?_⟩
    rw [Body.encode, hbehind]
    simp only [List.append_assoc]

theorem Body.At.short (h : place.At body front) (hshort : body.Short) : place.Short := by
  induction h with
  | here => exact hshort
  | leaf h ih => exact ih hshort
  | next h ih => exact ih hshort.2.2
  | inside h ih => exact ih hshort.2.1

end DxApi.Writer

namespace DxApi.Reader

open Exec ByteMemory ByteOrder Writer

/-- In a message that is written as its reference encoding the number of items of an array, wherever it
stands, is read back if and only if it has at most twenty-two bits. -/
theorem arrayStart_survives_iff {body content next : Body} {w : DataWriter} {front : List UInt8} {nItems : ℕ}
    (h : Writable body w) (hflat : body.Flat) (hstarts : ¬ body.StartsLong)
    (hplace : (Body.container (.array nItems) content next).At body front) :
    wp (writeMessage body)
      (fun messageEnd w' ↦ ∃ behind,
        slice w'.mem (w.dataPtr + 4) messageEnd = front ++ (arrayBytes nItems content.encode ++ behind) ∧
          (ReadsArrayStart (arrayBytes nItems content.encode) nItems content.encode ↔ nItems < 2 ^ 22))
      (fun _ _ ↦ False) w := by
  obtain ⟨behind, hencode⟩ := hplace.encode
  have hshort := (hplace.short h.short).1
  apply wp_mono (encodes_of_flat h hflat hstarts)
  · intro messageEnd w' h'
    refine ⟨next.encode ++ behind, ?_, readsArrayStart_iff hshort⟩
    rw [h'.2, hencode, Body.encode, List.append_assoc]
    rfl
  · exact fun _ _ ↦ id

/-- A message of one byte and an array. -/
@[irreducible]
def arrayMessage (nItems : ℕ) : Body := .leaf [1] [] (.container (.array nItems) .done .done)

theorem arrayMessage_flat (nItems : ℕ) : (arrayMessage nItems).Flat := by
  rw [arrayMessage]
  exact ⟨trivial, trivial⟩

theorem arrayMessage_not_startsLong (nItems : ℕ) : ¬ (arrayMessage nItems).StartsLong := by
  rw [arrayMessage]
  exact fun hstarts ↦ absurd hstarts.1 (List.cons_ne_nil _ _)

theorem arrayMessage_at (nItems : ℕ) : (Body.container (.array nItems) .done .done).At (arrayMessage nItems) [1] := by
  rw [arrayMessage]
  exact .leaf .here

theorem arrayMessage_writable {nItems : ℕ} (hlength : (Kind.array nItems).head.length ≤ 5) :
    Writable (arrayMessage nItems) (emptyWriter 100) := by
  have hcontent : Body.contentLength (.array nItems) .done = (Kind.array nItems).head.length := by
    rw [Body.contentLength_eq]
    rfl
  have hextra := extraBytes_le (Body.contentLength (.array nItems) .done)
  constructor
  · exact le_rfl
  · change (0 : ℤ) + 4 + _ ≤ (100 : ℕ)
    rw [arrayMessage, Body.encode, List.length_append, Body.length_encode_container, hcontent]
    rw [hcontent] at hextra
    simp only [List.length_singleton, Body.encode, List.length_nil]
    omega
  · change ((100 : ℕ) : ℤ) - 0 < _
    omega
  · rw [arrayMessage]
    exact (by decide : 1 ≤ loaderMaxNestedObjects)
  · rw [arrayMessage]
    refine ⟨?_, trivial, trivial⟩
    rw [hcontent]
    omega

/-- A number, and an object with an array and a byte in it. -/
@[irreducible]
def nestedArray : Body :=
  .leaf [1] [] (.container (.object 2) (.container (.array 300) (.leaf [3, 4] [] .done) (.leaf [5] [] .done)) .done)

theorem nestedArray_writable : Writable nestedArray (emptyWriter 100) := by
  rw [nestedArray]
  exact ⟨by decide, by decide +kernel, by decide, by decide +kernel,
    ⟨by decide +kernel, ⟨by decide +kernel, trivial, trivial⟩, trivial⟩⟩

theorem nestedArray_at :
    (Body.container (.array 300) (.leaf [3, 4] [] .done) (.leaf [5] [] .done)).At nestedArray [1, 7, 2] := by
  have hfront : [1] ++ (packedUInt22 7 ++ [2] ++ []) = [1, 7, 2] := by decide
  rw [← hfront, nestedArray]
  exact .leaf (.inside .here)

theorem arrayStart_survives_nested :
    wp (writeMessage nestedArray)
      (fun messageEnd w' ↦ ∃ behind,
        slice w'.mem ((emptyWriter 100).dataPtr + 4) messageEnd = [1, 7, 2] ++ (arrayBytes 300 [3, 4] ++ behind) ∧
          ReadsArrayStart (arrayBytes 300 [3, 4]) 300 [3, 4])
      (fun _ _ ↦ False) (emptyWriter 100) := by
  have hflat : nestedArray.Flat := by
    rw [nestedArray]
    exact ⟨⟨by decide +kernel, trivial, trivial⟩, trivial⟩
  have hstarts : ¬ nestedArray.StartsLong := by
    rw [nestedArray]
    exact fun hstarts ↦ absurd hstarts.1 (List.cons_ne_nil _ _)
  apply wp_mono (arrayStart_survives_iff nestedArray_writable hflat hstarts nestedArray_at)
  · rintro messageEnd w' ⟨behind, hslice, hreads⟩
    exact ⟨behind, hslice, hreads.mpr (by decide)⟩
  · exact fun _ _ ↦ id

/-- The number of items 2 ^ 22 is not read back. -/
theorem arrayStart_lost :
    ¬ ∀ (nItems : ℕ) (body content next : Body) (w : DataWriter) (front : List UInt8), nItems < 2 ^ 64 →
      Writable body w → body.Flat → ¬ body.StartsLong → (Body.container (.array nItems) content next).At body front →
      wp (writeMessage body)
        (fun messageEnd w' ↦ ∃ behind,
          slice w'.mem (w.dataPtr + 4) messageEnd = front ++ (arrayBytes nItems content.encode ++ behind) ∧
            ReadsArrayStart (arrayBytes nItems content.encode) nItems content.encode)
        (fun _ _ ↦ False) w := by
  intro hall
  have hlength : (Kind.array (2 ^ 22)).head.length ≤ 5 := by decide +kernel
  have hwrites := hall (2 ^ 22) _ .done .done _ [1] (by decide) (arrayMessage_writable hlength) (arrayMessage_flat _)
    (arrayMessage_not_startsLong _) (arrayMessage_at _)
  obtain ⟨messageEnd, w', -, behind, -, hreads⟩ := exists_ok_of_wp hwrites
  have hshort : (packedCount (2 ^ 22 % 2 ^ 32) ++ Body.done.encode).length < 2 ^ 22 := by decide +kernel
  exact absurd ((readsArrayStart_iff hshort).mp hreads) (lt_irrefl _)

end DxApi.Reader
