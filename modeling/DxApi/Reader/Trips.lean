import DxApi.Reader.Fields
import DxApi.Writer.Patches

/-!
# From the writer to the reader

The bytes that a field write leaves behind are the bytes of its patch, and a reader that has them
ahead decodes them. A trip from the writer to the reader is put together of these two halves: which
data the patch holds, and what the data is decoded as.
-/

namespace DxApi.Writer

open Exec ByteMemory ByteOrder

/-! ## The bytes of a patch -/

/-- The bytes of the patch are `data`, and all of them are stored. -/
structure Patch.Holds (patch : Patch) (data : List UInt8) : Prop where
  size_eq : patch.size = data.length
  stored_eq : ∀ offset < data.length, patch.stored offset = data[offset]?

variable {data data' beyond : List UInt8} {first second patch : Patch}

theorem Patch.holds_word (data beyond : List UInt8) : (Patch.word (data ++ beyond) data.length).Holds data :=
  ⟨rfl, fun _ hoffset ↦ List.getElem?_append_left hoffset⟩

theorem Patch.holds_data (data : List UInt8) : (Patch.data data).Holds data := ⟨rfl, fun _ _ ↦ rfl⟩

theorem Patch.holds_byte (value : UInt8) : (Patch.byte value).Holds [value] := Patch.holds_data [value]

theorem Patch.holds_wordPatch (size : ℕ) (value : ℤ) :
    (wordPatch size value).Holds (bigEndian size (Writer.word size value)) :=
  ⟨(length_bigEndian size _).symm, fun _ _ ↦ rfl⟩

/-- The low bytes of a word, lowest first. -/
theorem Patch.holds_littleEndian {size count : ℕ} (value : ℕ) (hcount : count ≤ size) :
    (Patch.word (littleEndian size value) count).Holds (littleEndian count value) := by
  obtain ⟨more, hmore⟩ := Nat.exists_eq_add_of_le hcount
  have hholds := Patch.holds_word (littleEndian count value) (littleEndian more (value / 256 ^ count))
  rwa [← littleEndian_add, ← hmore, length_littleEndian] at hholds

/-- The high bytes of a word, highest first. -/
theorem Patch.holds_bigEndian {size count : ℕ} (value : ℕ) (hcount : count ≤ size) :
    (Patch.word (bigEndian size value) count).Holds (bigEndian count (value / 256 ^ (size - count))) := by
  have hholds := Patch.holds_word (bigEndian count (value / 256 ^ (size - count))) (bigEndian (size - count) value)
  rwa [← bigEndian_add, Nat.add_sub_cancel' hcount, length_bigEndian] at hholds

theorem Patch.Holds.append (h : first.Holds data) (h' : second.Holds data') :
    (first.append second).Holds (data ++ data') := by
  constructor
  · rw [List.length_append, ← h.size_eq, ← h'.size_eq]
    rfl
  · intro offset hoffset
    simp only [Patch.append]
    by_cases hfirst : offset < first.size
    · have hinside : offset < data.length := by rwa [← h.size_eq]
      rw [if_pos hfirst, h.stored_eq offset hinside, List.getElem?_append_left hinside]
    · have hbehind : data.length ≤ offset := by rwa [← h.size_eq, ← not_lt]
      have hinside : offset - data.length < data'.length := by
        rw [List.length_append] at hoffset
        omega
      rw [if_neg hfirst, h.size_eq, h'.stored_eq _ hinside, List.getElem?_append_right hbehind,
        List.getElem?_eq_getElem hinside]
      rfl

/-- What stands in the buffer once the patch is stored. -/
theorem Patch.Holds.slice_put (h : patch.Holds data) (w : DataWriter) :
    slice (patch.put w).mem w.dataPtr (patch.put w).dataPtr = data := by
  have hbytes := bytes_store w.mem w.dataPtr data
  simp only [Patch.put, h.size_eq]
  rw [slice_add]
  conv_rhs => rw [← hbytes]
  apply bytes_congr
  intro address hle hlt
  have hoffset : (address - w.dataPtr).toNat < data.length := by omega
  rw [Patch.apply_of_ge hle, store, if_pos hle, h.stored_eq _ hoffset, List.getD_eq_getElem?_getD]

theorem both_none (patch : Option Patch) : both patch none = none := by
  cases patch with
  | none => rfl
  | some first => rfl

end DxApi.Writer

namespace DxApi.Reader

open Exec ByteMemory ByteOrder Writer

/-! ## The halves of a trip -/

/-- A call stores the data of its patch if its argument is accepted and there is room. -/
theorem wp_of_puts {patch : Option Patch} {program : WriterM Unit} {w : DataWriter} (accepted : Prop)
    (post : List UInt8 → Prop) (room : ℕ) (h : PutsAt patch program w) (hnone : ¬ accepted → patch = none)
    (hsome : accepted → ∃ p data, patch = some p ∧ p.Holds data ∧ data.length ≤ room ∧ post data) :
    wp program (fun _ w' ↦ accepted ∧ post (written w w'))
      (fun _ _ ↦ ¬ accepted ∨ w.dataEnd < w.dataPtr + room) w := by
  apply wp_mono h
  · rintro - w' ⟨p, hp, rfl, hfits⟩
    have haccepted : accepted := by_contra fun hnot ↦ Option.some_ne_none p (hp.symm.trans (hnone hnot))
    obtain ⟨p', data, hp', hholds, -, hpost⟩ := hsome haccepted
    obtain rfl : p = p' := Option.some.inj (hp.symm.trans hp')
    rw [written, hholds.slice_put]
    exact ⟨haccepted, hpost⟩
  · intro error w' hover
    by_cases haccepted : accepted
    · obtain ⟨p, data, hp, hholds, hroom, -⟩ := hsome haccepted
      have hbehind := hover p hp
      have hsize := hholds.size_eq
      exact .inr (by omega)
    · exact .inl haccepted

/-- A call whose argument is always accepted. -/
theorem wp_of_holds {patch : Patch} {program : WriterM Unit} {w : DataWriter} {data : List UInt8}
    (post : List UInt8 → Prop) {room : ℕ} (h : PutsAt (some patch) program w) (hholds : patch.Holds data)
    (hroom : data.length ≤ room) (hpost : post data) :
    wp program (fun _ w' ↦ post (written w w')) (fun _ _ ↦ w.dataEnd < w.dataPtr + room) w := by
  apply wp_mono (wp_of_puts True post room h (fun hnot ↦ absurd trivial hnot)
    fun _ ↦ ⟨patch, data, rfl, hholds, hroom, hpost⟩)
  · exact fun _ _ h' ↦ h'.2
  · exact fun _ _ h' ↦ h'.resolve_left fun hnot ↦ hnot trivial

variable {cls : ReaderClass} {data data' rest rest' : List UInt8}

theorem decodes_skip (data : List UInt8) : Decodes cls (skip cls data.length) data () := by
  intro r rest left h hleft hroomy
  have hwithin : Within cls (data ++ rest) left data.length := by
    rw [within_iff, List.length_append]
    exact ⟨by omega, hleft⟩
  apply wp_mono (skip_spec h hroomy.hasBuffer)
  · intro found r' h'
    rw [List.drop_left] at h'
    exact ⟨rfl, h'.1, h'.2.1⟩
  · intro _ _ h'
    rcases h' with hexceeds | hsmall
    · exact hwithin hexceeds
    · exact hsmall (hroomy.hasRoom_skip _)

/-- The bytes that are read decide what is returned, whatever stands behind them. -/
theorem decodes_bytes {α : Type} {n : ℕ} {f : ℤ → DataReader → α} {value : α} (hn : n ≤ 0x200)
    (hdata : data.length = n) (hsame : ∀ p r, ByteMemory.bytes r.mem p n = data → f p r = value) :
    Decodes cls (do let p ← bytes cls n; let r ← get; return f p r) data value := by
  intro r rest left h hleft hroomy
  have hwithin : Within cls (data ++ rest) left n := by
    rw [within_iff, List.length_append]
    exact ⟨by omega, fun hmsg ↦ by have := hleft hmsg; omega⟩
  apply wp_call (bytes_spec h hroomy.hasBuffer)
  · intro p r' h'
    rw [List.take_left' hdata, List.drop_left' hdata] at h'
    rw [wp_bind, wp_get, wp_pure, hdata]
    exact ⟨hsame p r' h'.2.2.1, h'.1, h'.2.1⟩
  · intro _ _ h'
    rcases h' with hexceeds | hsmall
    · exact hwithin hexceeds
    · exact hsmall (hroomy.hasRoom false (by omega))

/-- Bytes that are looked at stay ahead. -/
theorem decodes_peek {α : Type} {n : ℕ} {continuation : ℤ → DataReader → ReaderM α} {next : ReaderM α} {value : α}
    (hn : n ≤ 0x200) (hle : n ≤ data.length)
    (hsame : ∀ p r, ByteMemory.bytes r.mem p n = data.take n → continuation p r = next)
    (h : Decodes cls next data value) :
    Decodes cls (do let p ← peek cls n; let r ← get; continuation p r) data value := by
  intro r rest left hready hleft hroomy
  have hwithin : Within cls (data ++ rest) left n := by
    rw [within_iff, List.length_append]
    exact ⟨by omega, fun hmsg ↦ by have := hleft hmsg; omega⟩
  apply wp_call (peek_spec hready hroomy.hasBuffer)
  · intro p r' h'
    rw [List.take_append_of_le_length hle] at h'
    rw [wp_bind, wp_get, hsame p r' h'.2.2.1]
    apply wp_mono (h r' rest left h'.2.1 hleft (h'.1.roomy.mpr hroomy))
    · exact fun _ _ h'' ↦ ⟨h''.1, h'.1.trans h''.2.moved, h''.2.ready⟩
    · exact fun _ _ ↦ id
  · intro _ _ h'
    rcases h' with hexceeds | hsmall
    · exact hwithin hexceeds
    · exact hsmall (hroomy.hasRoom false (by omega))

theorem decodes_loadLE_bytes {n : ℕ} (hn : n ≤ 0x200) (hdata : data.length = n) :
    Decodes cls (loadLE cls n) data (ofLittleEndian data) :=
  decodes_bytes hn hdata fun _ _ ↦ congrArg ofLittleEndian

theorem decodes_loadBE_bytes {n : ℕ} (hn : n ≤ 0x200) (hdata : data.length = n) :
    Decodes cls (loadBE cls n) data (ofBigEndian data) :=
  decodes_bytes hn hdata fun _ _ ↦ congrArg ofBigEndian

/-- A header byte, and the rest as it says. -/
theorem decodes_header {α : Type} {header : UInt8} {next : ℕ → ReaderM α} {value : α}
    (h : Decodes cls (next header.toNat) data value) :
    Decodes cls (getByte cls >>= next) (header :: data) value :=
  (decodes_getByte header).bind h

/-- Two readings of the same bytes take as many of them and find the same. -/
theorem ReadsField.agree {α : Type} {program : ReaderClass → ReaderM α} {value value' : α}
    (h : ReadsField program data value) (h' : ReadsField program data' value')
    (hsame : data ++ rest = data' ++ rest') (hne : data ++ rest ≠ [])
    (hsmall : (data ++ rest).length < 2 ^ 32) : value = value' ∧ rest = rest' := by
  have hahead := messageReader_ahead hsmall
  obtain ⟨left, hready, hleft⟩ := hahead.ready
  have hpositive := List.length_pos_of_ne_nil hne
  have hlimit := (hready.contentEnd_eq rfl).1
  have henough := hleft rfl
  have hmore : (messageReader (data ++ rest)).dataPtr ≠ (messageReader (data ++ rest)).contentEnd := by
    rw [hlimit]
    omega
  have hready' : Ready .msg (messageReader (data ++ rest)) (messageReader (data ++ rest)).dataPtr
      (data' ++ rest') left := by rwa [← hsame]
  have hlength := congrArg List.length hsame
  simp only [List.length_append] at hlength henough
  have hfirst := h .msg _ rest left hready (fun _ ↦ by omega) hahead.roomy hmore
  have hsecond := h' .msg _ rest' left hready' (fun _ ↦ by omega) hahead.roomy hmore
  obtain ⟨found, r', -, hfound⟩ := exists_ok_of_wp (wp_mono (wp_and hfirst hsecond) (fun _ _ ↦ id) fun _ _ ↦ And.left)
  exact ⟨hfound.1.1.symm.trans hfound.2.1, hfound.1.2.ready.at_rest.unique hfound.2.2.ready.at_rest⟩

/-- If the header says how many bytes follow, whatever is read has a header and as many bytes. -/
theorem ReadsField.exists_header {α : Type} {program : ReaderClass → ReaderM α} {size : UInt8 → ℕ}
    {value : UInt8 → List UInt8 → α} {found : α} (h : ReadsField program data found)
    (hsize : ∀ header, size header ≤ 8)
    (hread : ∀ header data, data.length = size header → ReadsField program (header :: data) (value header data))
    (hsmall : data.length < 2 ^ 31) :
    ∃ header rest, data = header :: rest ∧ rest.length = size header ∧ found = value header rest := by
  obtain ⟨header, tail, hbytes⟩ : ∃ header tail, data ++ List.replicate 9 0 = header :: tail :=
    List.exists_cons_of_ne_nil (by simp)
  have hle := hsize header
  have hlength := congrArg List.length hbytes
  rw [List.length_append, List.length_replicate, List.length_cons] at hlength
  have htake : (tail.take (size header)).length = size header := by
    rw [List.length_take]
    omega
  have hsplit : data ++ List.replicate 9 0 = (header :: tail.take (size header)) ++ tail.drop (size header) := by
    rw [hbytes, List.cons_append, List.take_append_drop]
  obtain ⟨hfound, hrest⟩ := h.agree (hread header _ htake) hsplit (by simp) (by
    rw [List.length_append, List.length_replicate]
    omega)
  rw [← hrest] at hsplit
  exact ⟨header, _, List.append_cancel_right hsplit, htake, hfound⟩

theorem ReadsField.map {α β : Type} {program : ReaderClass → ReaderM α} {value : α}
    (h : ReadsField program data value) (f : α → β) :
    ReadsField (fun cls ↦ do return f (← program cls)) data (f value) := by
  intro cls r rest left hready hleft hroomy hmore
  apply wp_call (h cls r rest left hready hleft hroomy hmore)
  · exact fun found r' h' ↦ wp_pure.mpr ⟨congrArg f h'.1, h'.2⟩
  · exact fun _ _ ↦ id

end DxApi.Reader
