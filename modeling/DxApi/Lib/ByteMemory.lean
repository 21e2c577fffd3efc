import Mathlib.Data.List.GetD
import Mathlib.Data.Int.Order.Basic
import Mathlib.Tactic.Ring

/-!
# Byte-addressed memory

A memory is a total map from integer addresses to bytes. Programs that move pointers around a
buffer are modelled over it: `slice` is the content between two pointers, `store` writes a block
and `move` is the copy of a possibly overlapping block. The lemmas say which slices a write leaves
alone and what the written slice holds, so that a proof about a buffer never looks at one address.
-/

namespace DxApi.ByteMemory

/-- The content of every address. -/
abbrev Memory := ℤ → UInt8

/-- The `count` bytes that start at `start`. -/
def bytes (mem : Memory) (start : ℤ) : ℕ → List UInt8
  | 0 => []
  | count + 1 => mem start :: bytes mem (start + 1) count

/-- The bytes from `start` up to, not including, `stop`. -/
def slice (mem : Memory) (start stop : ℤ) : List UInt8 :=
  bytes mem start (stop - start).toNat

/-- Write `data` at `start`. -/
def store (mem : Memory) (start : ℤ) (data : List UInt8) : Memory := fun address ↦
  if start ≤ address then data.getD (address - start).toNat (mem address) else mem address

/-- Copy `count` bytes from `source` to `target`; the blocks may overlap. -/
def move (mem : Memory) (target source : ℤ) (count : ℕ) : Memory :=
  store mem target (bytes mem source count)

variable {mem other : Memory} {start stop middle target source : ℤ} {data : List UInt8}

/-! ## Reading -/

@[simp]
theorem length_bytes (mem : Memory) (start : ℤ) (count : ℕ) :
    (bytes mem start count).length = count := by
  induction count generalizing start with
  | zero => rfl
  | succ count ih => simp [bytes, ih]

@[simp]
theorem bytes_zero (mem : Memory) (start : ℤ) : bytes mem start 0 = [] := rfl

theorem bytes_add (mem : Memory) (start : ℤ) (first second : ℕ) :
    bytes mem start (first + second) = bytes mem start first ++ bytes mem (start + first) second := by
  induction first generalizing start with
  | zero => simp
  | succ first ih =>
    have hstep : first + 1 + second = (first + second) + 1 := by omega
    rw [hstep, bytes, ih (start + 1), bytes, List.cons_append]
    congr 3
    push_cast
    ring

theorem bytes_congr {count : ℕ}
    (h : ∀ address, start ≤ address → address < start + count → mem address = other address) :
    bytes mem start count = bytes other start count := by
  induction count generalizing start with
  | zero => rfl
  | succ count ih =>
    simp only [bytes]
    rw [h start le_rfl (by push_cast; omega), ih]
    intro address hle hlt
    exact h address (by omega) (by push_cast at *; omega)

/-- Two blocks of one length hold the same bytes. -/
theorem bytes_eq_iff (mem other : Memory) (start target : ℤ) (count : ℕ) :
    bytes mem start count = bytes other target count ↔
      ∀ index < count, mem (start + (index : ℤ)) = other (target + index) := by
  induction count generalizing start target with
  | zero => exact ⟨fun _ index hindex ↦ absurd hindex (Nat.not_lt_zero index), fun _ ↦ rfl⟩
  | succ count ih =>
    simp only [bytes, List.cons.injEq, ih]
    have hstep : ∀ (base : ℤ) (index : ℕ), base + 1 + (index : ℤ) = base + (index + 1 : ℕ) := by
      intro base index
      push_cast
      ring
    constructor
    · intro hboth index hindex
      cases index with
      | zero => simpa using hboth.1
      | succ index =>
        have hrest := hboth.2 index (Nat.lt_of_succ_lt_succ hindex)
        rwa [hstep, hstep] at hrest
    · intro hall
      refine ⟨by simpa using hall 0 (Nat.succ_pos count), fun index hindex ↦ ?_⟩
      rw [hstep, hstep]
      exact hall (index + 1) (Nat.succ_lt_succ hindex)

theorem take_bytes (mem : Memory) (start : ℤ) {count keep : ℕ} (h : keep ≤ count) :
    (bytes mem start count).take keep = bytes mem start keep := by
  obtain ⟨rest, rfl⟩ := Nat.exists_eq_add_of_le h
  rw [bytes_add, List.take_append_of_le_length (by simp)]
  exact List.take_of_length_le (by simp)

theorem drop_bytes (mem : Memory) (start : ℤ) {count gone : ℕ} (h : gone ≤ count) :
    (bytes mem start count).drop gone = bytes mem (start + gone) (count - gone) := by
  obtain ⟨rest, rfl⟩ := Nat.exists_eq_add_of_le h
  rw [bytes_add, List.drop_append_of_le_length (by simp), List.drop_of_length_le (by simp)]
  simp

@[simp]
theorem length_slice (mem : Memory) (start stop : ℤ) :
    (slice mem start stop).length = (stop - start).toNat := by
  simp [slice]

theorem slice_of_le (mem : Memory) (h : stop ≤ start) : slice mem start stop = [] := by
  have hzero : (stop - start).toNat = 0 := by omega
  rw [slice, hzero, bytes_zero]

@[simp]
theorem slice_self (mem : Memory) (start : ℤ) : slice mem start start = [] :=
  slice_of_le mem le_rfl

theorem slice_add (mem : Memory) (start : ℤ) (count : ℕ) :
    slice mem start (start + count) = bytes mem start count := by
  rw [slice]
  congr 1
  omega

theorem slice_eq_iff (mem other : Memory) (start target : ℤ) (count : ℕ) :
    slice mem start (start + count) = slice other target (target + count) ↔
      ∀ index < count, mem (start + (index : ℤ)) = other (target + index) := by
  rw [slice_add, slice_add, bytes_eq_iff]

theorem slice_append (mem : Memory) (middle : ℤ) (hfirst : start ≤ middle) (hsecond : middle ≤ stop) :
    slice mem start stop = slice mem start middle ++ slice mem middle stop := by
  have hcount : (stop - start).toNat = (middle - start).toNat + (stop - middle).toNat := by omega
  have hmiddle : start + ((middle - start).toNat : ℤ) = middle := by omega
  rw [slice, hcount, bytes_add, hmiddle]
  rfl

theorem slice_congr
    (h : ∀ address, start ≤ address → address < stop → mem address = other address) :
    slice mem start stop = slice other start stop :=
  bytes_congr fun address hle hlt ↦ h address hle (by omega)

theorem take_slice (mem : Memory) (start : ℤ) {keep : ℕ} (h : start + keep ≤ stop) :
    (slice mem start stop).take keep = bytes mem start keep :=
  take_bytes mem start (by omega)

theorem drop_slice (mem : Memory) (start : ℤ) {gone : ℕ} (h : start + gone ≤ stop) :
    (slice mem start stop).drop gone = slice mem (start + gone) stop := by
  rw [slice, drop_bytes mem start (by omega), slice]
  congr 1
  omega

/-! ## Writing -/

theorem store_of_lt {address : ℤ} (h : address < start) :
    store mem start data address = mem address := by
  simp [store, not_le.mpr h]

theorem store_of_ge {address : ℤ} (h : start + data.length ≤ address) :
    store mem start data address = mem address := by
  have hle : start ≤ address := by omega
  rw [store, if_pos hle, List.getD_eq_default]
  omega

theorem bytes_store (mem : Memory) (start : ℤ) (data : List UInt8) :
    bytes (store mem start data) start data.length = data := by
  apply List.ext_getElem (by simp)
  intro index hindex hdata
  have hbyte : ∀ (memory : Memory) (base : ℤ) (count : ℕ) (h : index < (bytes memory base count).length),
      (bytes memory base count)[index] = memory (base + index) := by
    clear hindex hdata
    induction index with
    | zero =>
      intro memory base count h
      cases count with
      | zero => simp at h
      | succ count => simp [bytes]
    | succ index ih =>
      intro memory base count h
      cases count with
      | zero => simp at h
      | succ count =>
        have hlt : index < (bytes memory (base + 1) count).length := by simpa using h
        rw [show (bytes memory base (count + 1))[index + 1] =
          (bytes memory (base + 1) count)[index] from rfl, ih memory (base + 1) count hlt]
        congr 1
        push_cast
        ring
  rw [hbyte, store, if_pos (by omega)]
  have hoffset : (start + (index : ℤ) - start).toNat = index := by omega
  rw [hoffset, List.getD_eq_getElem _ _ hdata]

theorem slice_store (mem : Memory) (start : ℤ) (data : List UInt8) :
    slice (store mem start data) start (start + data.length) = data := by
  rw [slice_add, bytes_store]

/-- A store of a word of which only the first part counts. -/
theorem slice_store_append (mem : Memory) (start : ℤ) (data beyond : List UInt8) :
    slice (store mem start (data ++ beyond)) start (start + data.length) = data := by
  have hwhole := slice_store mem start (data ++ beyond)
  rw [slice_append _ (start + data.length) (by omega) (by simp)] at hwhole
  exact (List.append_inj hwhole (by simp)).1

theorem slice_store_before (h : stop ≤ target) :
    slice (store mem target data) start stop = slice mem start stop :=
  slice_congr fun _ _ hlt ↦ store_of_lt (by omega)

theorem slice_store_after (h : target + data.length ≤ start) :
    slice (store mem target data) start stop = slice mem start stop :=
  slice_congr fun _ hle _ ↦ store_of_ge (by omega)

theorem getD_bytes (mem : Memory) (start : ℤ) (count index : ℕ) :
    (bytes mem start count).getD index (mem (start + index)) = mem (start + index) := by
  induction count generalizing start index with
  | zero => rfl
  | succ count ih =>
    cases index with
    | zero => simp [bytes]
    | succ index =>
      have haddress : start + ((index + 1 : ℕ) : ℤ) = start + 1 + index := by
        push_cast
        ring
      rw [bytes, List.getD_cons_succ, haddress, ih]

/-- Bytes that are stored where they already are can be left out. -/
theorem store_append_bytes (mem : Memory) (start : ℤ) (data : List UInt8) (count : ℕ) :
    store mem start (data ++ bytes mem (start + data.length) count) = store mem start data := by
  funext address
  by_cases hbefore : address < start
  · rw [store_of_lt hbefore, store_of_lt hbefore]
  · by_cases hinside : address < start + data.length
    · rw [store, store, if_pos (by omega), if_pos (by omega),
        List.getD_append _ _ _ _ (by omega)]
    · have haddress : address = start + data.length +
          ((address - start).toNat - data.length : ℕ) := by omega
      have hlast := getD_bytes mem (start + data.length) count ((address - start).toNat - data.length)
      rw [← haddress] at hlast
      have hkept : store mem start data address = mem address := store_of_ge (by omega)
      rw [hkept, store, if_pos (by omega), List.getD_append_right _ _ _ _ (by omega), hlast]

theorem slice_move (mem : Memory) (target source : ℤ) (count : ℕ) :
    slice (move mem target source count) target (target + count) =
      slice mem source (source + count) := by
  have h := slice_store mem target (bytes mem source count)
  rw [length_bytes] at h
  rw [move, h, slice_add]

theorem slice_move_before {count : ℕ} (h : stop ≤ target) :
    slice (move mem target source count) start stop = slice mem start stop :=
  slice_store_before h

theorem slice_move_after {count : ℕ} (h : target + count ≤ start) :
    slice (move mem target source count) start stop = slice mem start stop :=
  slice_store_after (by simpa using h)

/-- A copy made of a first part and the rest, the way a word move followed by a block move is. -/
theorem slice_move_sub (mem : Memory) (target source : ℤ) {count keep : ℕ} (h : keep ≤ count) :
    slice (move mem target source count) target (target + keep) =
      slice mem source (source + keep) := by
  have hwhole := slice_move mem target source count
  rw [slice_append _ (target + keep) (by omega) (by omega),
    slice_append mem (source + keep) (by omega) (by omega)] at hwhole
  exact (List.append_inj hwhole (by simp)).1

/-- A copy of more bytes than needed, of which the last ones count. -/
theorem slice_move_last (mem : Memory) (target source : ℤ) {count gone : ℕ} (h : gone ≤ count) :
    slice (move mem target source count) (target + gone) (target + count) =
      slice mem (source + gone) (source + count) := by
  have hwhole := slice_move mem target source count
  rw [slice_append _ (target + gone) (by omega) (by omega),
    slice_append mem (source + gone) (by omega) (by omega)] at hwhole
  exact (List.append_inj hwhole (by simp)).2

end DxApi.ByteMemory
