import DxApi.Lib.Decoding
import DxApi.Reader.Trips

/-!
# Reading up to the end of a connection

A reader that was given no message to read, only the stream of a connection, takes any bytes off it and
throws when the connection ends before them. The exception is the one for a lost connection, whichever
call finds it out.
-/

namespace DxApi.Reader

open Exec
open Decoding (DecodesFrom EndsBefore)

/-- `rest` is still to come, of which any part may be read. -/
structure AtStream (r : DataReader) (rest : List UInt8) : Prop where
  ready : ∃ left, Ready .msg r r.dataPtr rest left ∧ rest.length + 0x200 ≤ left
  roomy : Roomy r

variable {r : DataReader} {rest data raw : List UInt8} {start size : ℤ}

/-! ## The end of the stream -/

theorem getFromStream_short (h : Holds r start raw) (hshort : raw.length < size)
    (hfits : size ≤ r.bufferEnd - r.bufferStart) :
    wp (getFromStream start size) (fun _ _ ↦ False) (fun error _ ↦ error = .disconnected) r := by
  have hlength := h.length_eq
  have hle := h.le_streamDataEnd
  simp only [getFromStream, wp_bind, wp_get, wp_ite, wp_pure]
  refine ⟨fun hbuffered ↦ by omega, fun _ ↦ ?_⟩
  apply wp_mono (makeRoom_spec h)
  · rintro ⟨p, dataEnd⟩ _ ⟨mem, dataPtr, rfl, hp, hcount, hroom, -⟩
    simp only at hp hcount hroom
    apply wp_mono (read_spec (by omega))
    · rintro _ _ ⟨n, rfl, hmin, -, hwire, -⟩
      simp only at hwire
      omega
    · rintro error _ (⟨-, rfl⟩ | hlt)
      · rfl
      · simp only at hlt
        omega
  · exact fun _ _ ↦ False.elim

theorem skipStream_short (h : Holds r start raw) (hshort : raw.length < size)
    (hfits : size ≤ r.bufferEnd - r.bufferStart) :
    wp (skipStream start size) (fun _ _ ↦ False) (fun error _ ↦ error = .disconnected) r := by
  have hlength := h.length_eq
  have hle := h.le_streamDataEnd
  simp only [skipStream, wp_bind, wp_get, wp_ite, skipBuffers, wp_pure]
  refine ⟨fun hbuffered ↦ by omega, fun _ ↦ ⟨fun hmore ↦ by omega, fun _ ↦ ?_⟩⟩
  apply wp_mono (read_spec (by omega))
  · rintro _ _ ⟨n, rfl, hmin, -, hwire, -⟩
    omega
  · rintro error _ (⟨-, rfl⟩ | hlt)
    · rfl
    · omega

namespace AtStream

theorem holds (h : AtStream r rest) : Holds r r.dataPtr rest := by
  obtain ⟨left, hready, -⟩ := h.ready
  exact (at_plain (by decide)).mp hready.at_rest

theorem bytes_short {n : ℕ} (h : AtStream r rest) (hshort : rest.length < n) (hn : n ≤ 0x200) :
    wp (bytes .msg n) (fun _ _ ↦ False) (fun error _ ↦ error = .disconnected) r := by
  obtain ⟨left, hready, hleft⟩ := h.ready
  have hcontent := (hready.contentEnd_eq rfl).1
  have hroomy := h.roomy
  rw [Roomy] at hroomy
  simp only [bytes, wp_bind, wp_get, wp_set, wp_ite, wp_pure]
  constructor
  · intro _
    have hholds : Holds { r with dataPtr := r.dataPtr + n } r.dataPtr rest :=
      (at_plain (by decide)).mp (hready.withDataPtr _).at_rest
    have hshort' : (rest.length : ℤ) < n := by omega
    have hstream := getFromStream_short hholds hshort' (by simp only; omega)
    simp only [onReadBarrier, getVirtual, getMsg, getWithinContent, getInl, wp_bind, wp_get, wp_ite, wp_throw]
    refine ⟨fun _ ↦ ?_, fun hbeyond ↦ by omega⟩
    apply wp_mono hstream
    · exact fun _ _ ↦ False.elim
    · exact fun _ _ ↦ id
  · intro hbuffered
    obtain ⟨-, hexceeds⟩ := hready.bytes_eq (not_lt.mp hbuffered)
    exact absurd (.inl (by omega)) hexceeds

theorem skip_short {n : ℕ} (h : AtStream r rest) (hshort : rest.length < n) (hn : n ≤ 0x200) :
    wp (skip .msg n) (fun _ _ ↦ False) (fun error _ ↦ error = .disconnected) r := by
  obtain ⟨left, hready, hleft⟩ := h.ready
  have hcontent := (hready.contentEnd_eq rfl).1
  have hroomy := h.roomy
  rw [Roomy] at hroomy
  simp only [skip, wp_bind, wp_get, wp_set, wp_ite, wp_pure]
  constructor
  · intro _
    have hholds : Holds { r with dataPtr := r.dataPtr + n } r.dataPtr rest :=
      (at_plain (by decide)).mp (hready.withDataPtr _).at_rest
    have hshort' : (rest.length : ℤ) < n := by omega
    have hstream := skipStream_short hholds hshort' (by simp only; omega)
    simp only [skipVirtual, skipMsg, skipInl, wp_bind, wp_get, wp_ite, wp_throw]
    refine ⟨fun _ ↦ ?_, fun hbeyond ↦ by omega⟩
    apply wp_mono hstream
    · exact fun _ _ ↦ False.elim
    · exact fun _ _ ↦ id
  · intro hbuffered
    obtain ⟨-, hexceeds⟩ := hready.bytes_eq (not_lt.mp hbuffered)
    exact absurd (.inl (by omega)) hexceeds

/-- What is decoded is taken. -/
theorem decode {α : Type} {program : ReaderM α} {value : α} (h : AtStream r (data ++ rest))
    (hdecodes : Decodes .msg program data value) :
    wp program (fun found r' ↦ found = value ∧ AtStream r' rest) (fun _ _ ↦ False) r := by
  obtain ⟨left, hready, hleft⟩ := h.ready
  rw [List.length_append] at hleft
  push_cast at hleft
  apply wp_mono (hdecodes r rest left hready (fun _ ↦ by omega) h.roomy)
  · rintro found r' ⟨hfound, htook⟩
    exact ⟨hfound, ⟨_, htook.ready, by omega⟩, htook.moved.roomy.mpr h.roomy⟩
  · exact fun _ _ ↦ id

/-- There is as much fuel as there are bytes. -/
theorem length_le (h : AtStream r rest) : rest.length ≤ unread r r.dataPtr := by
  have hlength := h.holds.length_eq
  have hplace := h.holds.le_streamDataEnd
  rw [unread]
  omega

end AtStream

/-! ## Bytes -/

theorem decodesFrom_getByte (fuel : ℕ) (byte : UInt8) :
    DecodesFrom AtStream .disconnected fuel (getByte .msg) [byte] byte.toNat where
  whole _ _ h _ := h.decode (decodes_getByte byte)
  part r input h hends _ := by
    have hbyte : [byte].length ≤ 0x200 := Nat.le_of_ble_eq_true rfl
    simp only [getByte, loadBE, wp_bind]
    apply wp_mono (h.bytes_short hends.length_lt hbyte)
    · exact fun _ _ ↦ False.elim
    · exact fun _ _ ↦ id

theorem decodesFrom_skip (fuel : ℕ) (hdata : data.length ≤ 0x200) :
    DecodesFrom AtStream .disconnected fuel (skip .msg data.length) data () where
  whole _ _ h _ := h.decode (decodes_skip data)
  part _ _ h hends _ := h.skip_short hends.length_lt hdata

/-- A byte, and the rest as it says. -/
theorem decodesFrom_cons {α : Type} {fuel : ℕ} {byte : UInt8} {next : ℕ → ReaderM α} {value : α}
    (h : DecodesFrom AtStream .disconnected fuel (next byte.toNat) data value) :
    DecodesFrom AtStream .disconnected (fuel + 1) (getByte .msg >>= next) (byte :: data) value := by
  have hbind : DecodesFrom AtStream .disconnected (fuel + 1) (getByte .msg >>= next) ([byte] ++ data) value :=
    (decodesFrom_getByte (fuel + 1) byte).bind h
  exact hbind

/-- A reader over the stream of a connection, right after its construction. -/
theorem constructBase_atStream (raw : DataReader) {buffer : ℤ} {bufferSize : ℕ} (wire : List UInt8) (schedule : List ℕ)
    (hsize : 0x400 ≤ bufferSize) (hlimit : buffer + wire.length + 0x200 ≤ noContentLimit) :
    AtStream (constructBase raw buffer bufferSize 0 ⟨wire, schedule⟩) wire := by
  refine ⟨⟨noContentLimit - buffer, ⟨(at_plain (by decide)).mpr ⟨le_rfl, ?_, ?_, ?_⟩, ?_, fun _ ↦ ⟨?_, ?_, rfl⟩⟩, ?_⟩, ?_⟩
  · simp [constructBase]
  · simp [constructBase]
  · simp [constructBase]
  · simp only [constructBase, available, if_pos (show ReaderClass.isMsg .msg = true from rfl),
      if_neg (show ¬ReaderClass.isChunked .msg = true by decide)]
    omega
  · simp only [constructBase]
    omega
  · omega
  · omega
  · simp only [Roomy, constructBase]
    omega

end DxApi.Reader
