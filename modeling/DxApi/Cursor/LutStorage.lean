import DxApi.Cursor.DynamicLut
import DxApi.Lib.Exec
import DxApi.Lib.Runs
import Mathlib.Data.Int.Notation
import Mathlib.Data.List.Basic
import Mathlib.Logic.Function.Basic
import Mathlib.Order.Basic
import Mathlib.Tactic.Ring

/-!
# How the lookup tables are stored

`AbstractLUT` keeps its elements in an array that it resizes: a vector, or an array of a fixed size that
keeps what it held when the table is cleared. Whichever it is, the table is a total map: an element has the
last value that was set for it since the table was cleared, or else the default value.
-/

namespace DxApi.Cursor

open Exec

/-! ## The source -/

/-- What `AbstractLUT` asks of an array, with what it relies on. -/
class LutArray (A : Type) (α : outParam Type) where
  /-- `operator[]`. -/
  read : A → ℕ → α
  write : A → ℕ → α → A
  /-- `resize`; nothing when it throws. -/
  resize : A → ℕ → Option A
  clear : A → A
  /-- How many elements there are. -/
  cells : A → ℕ
  /-- To how many elements the array can be resized. -/
  capacity : ℕ
  read_write : ∀ data i j value, i < cells data → read (write data i value) j = if j = i then value else read data j
  cells_write : ∀ data i value, cells (write data i value) = cells data
  resize_eq_none : ∀ data n, resize data n = none ↔ capacity < n
  le_cells_resize : ∀ data n data', resize data n = some data' → n ≤ cells data'
  read_resize : ∀ data n data' i, resize data n = some data' → i < n → i < cells data → read data' i = read data i

/-- `std::vector<T>`; `default` is `T()`. -/
instance vectorArray {α : Type} [Inhabited α] : LutArray (List α) α where
  read data i := data.getD i default
  write data i value := data.set i value
  resize data n := if 2 ^ 63 - 1 < n then none else some (data.take n ++ List.replicate (n - data.length) default)
  clear _ := []
  cells := List.length
  capacity := 2 ^ 63 - 1
  read_write data i j value h := by grind
  cells_write data i value := List.length_set
  resize_eq_none data n := by simp
  le_cells_resize data n data' h := by
    split at h
    · cases h
    · cases h
      simp only [List.length_append, List.length_take, List.length_replicate]
      omega
  read_resize data n data' i h hn hi := by
    split at h
    · cases h
    · cases h
      grind

/-- `_LUT_ArrayWrapper_<T, SIZE>`. -/
structure LutArrayWrapper (α : Type) (size : ℕ) where
  data : List α
  length_eq : data.length = size
  deriving DecidableEq, Repr

instance wrapperArray {α : Type} [Inhabited α] {size : ℕ} : LutArray (LutArrayWrapper α size) α where
  read array i := array.data.getD i default
  write array i value := ⟨array.data.set i value, by rw [List.length_set, array.length_eq]⟩
  resize array n := if size < n then none else some array
  clear array := array
  cells _ := size
  capacity := size
  read_write array i j value h := by
    have hlength := array.length_eq
    grind
  cells_write array i value := rfl
  resize_eq_none array n := by simp
  le_cells_resize array n array' h := by
    split at h
    · cases h
    · omega
  read_resize array n array' i h hn hi := by
    split at h
    · cases h
    · cases h
      rfl

/-- Why `set` does not return. -/
inductive LutError
  /-- `resize` throws. -/
  | resize
  /-- The index is beyond the limit, or negative. -/
  | outOfRange
  deriving DecidableEq, Repr

/-- The members of `AbstractLUT<T, ARRAY, BASE, NMAX>`; its functions have `BASE` and `NMAX` as arguments. -/
structure StoredLUT (A α : Type) where
  dataSize : ℕ
  defaultValue : α
  data : A

namespace StoredLUT

variable {A α : Type} [LutArray A α]

/-- `index -= BASE`, in 64 bits. -/
def offset (base : ℤ) (index : ℕ) : ℕ := (((index : ℤ) - base) % 2 ^ 64).toNat

protected def get (base : ℤ) (lut : StoredLUT A α) (index : ℕ) : α :=
  if offset base index < lut.dataSize then LutArray.read lut.data (offset base index) else lut.defaultValue

/-- `data_[i] = value`. -/
def store (lut : StoredLUT A α) (i : ℕ) (value : α) : StoredLUT A α :=
  { lut with data := LutArray.write lut.data i value }

/-- The loop of `set`, from so many elements in front of `index` on. -/
def fillGap (index : ℕ) (value : α) : ℕ → StoredLUT A α → StoredLUT A α
  | 0, lut => lut
  | k + 1, lut => fillGap index value k (lut.store (index - (k + 1)) value)

/-- What `set` does with the array once it is resized: it fills the gap and writes the last element. -/
def grow (index : ℕ) (value : α) (data : A) (lut : StoredLUT A α) : StoredLUT A α :=
  let filled := fillGap index lut.defaultValue (index - lut.dataSize) { lut with data := data }
  { filled with dataSize := index + 1 }.store index value

protected def set (base : ℤ) (nmax index : ℕ) (value : α) : EStateM LutError (StoredLUT A α) Unit := do
  let lut ← get
  let index := offset base index
  if index < lut.dataSize then
    modify fun lut ↦ lut.store index value
  else if index < nmax then
    match LutArray.resize lut.data (index + 1) with
    | none => throw .resize
    | some data => modify (grow index value data)
  else throw .outOfRange

/-- `set` with the default value. -/
def setDefault (base : ℤ) (nmax index : ℕ) : EStateM LutError (StoredLUT A α) Unit := do
  let lut ← get
  StoredLUT.set base nmax index lut.defaultValue

def clear (lut : StoredLUT A α) : StoredLUT A α :=
  { lut with data := LutArray.clear lut.data, dataSize := 0 }

/-- The loop of `fill`, up to the element `n`. -/
def fillTo (value : α) : ℕ → StoredLUT A α → StoredLUT A α
  | 0, lut => lut
  | n + 1, lut => (fillTo value n lut).store n value

def fill (lut : StoredLUT A α) (value : α) : StoredLUT A α := fillTo value lut.dataSize lut

/-- `fill` with the default value. -/
def fillDefault (lut : StoredLUT A α) : StoredLUT A α := lut.fill lut.defaultValue

def setDefaultValue (lut : StoredLUT A α) (value : α) : StoredLUT A α :=
  { lut with defaultValue := value }

/-- A table that was just made; nothing is asked of what its array holds. `value` is `(T)(BASE - 1)`. -/
def fresh (data : A) (value : α) : StoredLUT A α := ⟨0, value, data⟩

end StoredLUT

/-! ## The table as a list -/

section

variable {A α : Type} [LutArray A α] {base : ℤ} {nmax : ℕ} {lut : StoredLUT A α}

/-- The number of elements that a table can have. -/
def lutLimit (A : Type) {α : Type} [LutArray A α] (nmax : ℕ) : ℕ := min nmax (LutArray.capacity A)

/-- Every element that there is gets the value. -/
def AbstractLUT.fill {limit : ℕ} (table : AbstractLUT α limit) (value : α) : AbstractLUT α limit where
  defaultValue := table.defaultValue
  data := List.replicate table.data.length value
  size_le := by
    rw [List.length_replicate]
    exact table.size_le

/-- The elements in use are those of the list. -/
structure StoredLUT.Represents (lut : StoredLUT A α) (table : AbstractLUT α (lutLimit A nmax)) : Prop where
  defaultValue_eq : table.defaultValue = lut.defaultValue
  length_eq : table.data.length = lut.dataSize
  dataSize_le : lut.dataSize ≤ LutArray.cells lut.data
  read_eq : ∀ i < lut.dataSize, table.data[i]? = some (LutArray.read lut.data i)

namespace StoredLUT

variable {table : AbstractLUT α (lutLimit A nmax)} {index n : ℕ} {value : α}

@[simp]
theorem dataSize_store (lut : StoredLUT A α) (i : ℕ) (value : α) :
    (lut.store i value).dataSize = lut.dataSize := rfl

@[simp]
theorem defaultValue_store (lut : StoredLUT A α) (i : ℕ) (value : α) :
    (lut.store i value).defaultValue = lut.defaultValue := rfl

@[simp]
theorem cells_store (lut : StoredLUT A α) (i : ℕ) (value : α) :
    LutArray.cells (lut.store i value).data = LutArray.cells lut.data := LutArray.cells_write _ _ _

theorem read_store (h : n < LutArray.cells lut.data) (i : ℕ) :
    LutArray.read (lut.store n value).data i = if i = n then value else LutArray.read lut.data i :=
  LutArray.read_write _ _ _ _ h

/-- The loop of `set` writes the elements in front of `index` and no others. -/
theorem fillGap_spec (hindex : index < LutArray.cells lut.data) (hn : n ≤ index) :
    (fillGap index value n lut).dataSize = lut.dataSize ∧
    (fillGap index value n lut).defaultValue = lut.defaultValue ∧
    LutArray.cells (fillGap index value n lut).data = LutArray.cells lut.data ∧
    ∀ i, LutArray.read (fillGap index value n lut).data i =
      if index - n ≤ i ∧ i < index then value else LutArray.read lut.data i := by
  induction n generalizing lut with
  | zero =>
    refine ⟨rfl, rfl, rfl, ?_⟩
    intro i
    rw [if_neg (by omega)]
    rfl
  | succ n ih =>
    have hcells : index < LutArray.cells (lut.store (index - (n + 1)) value).data := by rwa [cells_store]
    obtain ⟨hsize, hdefault, hsame, hread⟩ := ih hcells (by omega)
    refine ⟨hsize, hdefault, hsame.trans (cells_store _ _ _), ?_⟩
    intro i
    rw [fillGap, hread, read_store (by omega)]
    split_ifs <;> first | rfl | omega

/-- The elements of a table that was grown: the last one, the gap in front of it, and what was there. -/
theorem grow_spec {data : A} (lut : StoredLUT A α) (hcells : n < LutArray.cells data) :
    (lut.grow n value data).defaultValue = lut.defaultValue ∧
    n < LutArray.cells (lut.grow n value data).data ∧
    ∀ i ≤ n, LutArray.read (lut.grow n value data).data i =
      if i = n then value else if lut.dataSize ≤ i then lut.defaultValue else LutArray.read data i := by
  have hfilled := @fillGap_spec _ _ _ { lut with data := data } n (n - lut.dataSize) lut.defaultValue hcells
    (Nat.sub_le _ _)
  obtain ⟨-, hdefault, hgap, hread⟩ := hfilled
  have hlast : n < LutArray.cells (fillGap n lut.defaultValue (n - lut.dataSize) { lut with data := data }).data := by
    rw [hgap]
    exact hcells
  refine ⟨hdefault, ?_, ?_⟩
  · rw [grow, cells_store]
    exact hlast
  · intro i hi
    have hgrown := LutArray.read_write _ n i value hlast
    rw [hread] at hgrown
    refine hgrown.trans ?_
    split_ifs <;> first | rfl | omega

/-- The loop of `fill` writes the elements in front of `n` and no others. -/
theorem fillTo_spec (hn : n ≤ LutArray.cells lut.data) :
    (fillTo value n lut).dataSize = lut.dataSize ∧
    (fillTo value n lut).defaultValue = lut.defaultValue ∧
    LutArray.cells (fillTo value n lut).data = LutArray.cells lut.data ∧
    ∀ i, LutArray.read (fillTo value n lut).data i = if i < n then value else LutArray.read lut.data i := by
  induction n with
  | zero => exact ⟨rfl, rfl, rfl, fun i ↦ (if_neg (Nat.not_lt_zero i)).symm⟩
  | succ n ih =>
    obtain ⟨hsize, hdefault, hcells, hread⟩ := ih (by omega)
    refine ⟨hsize, hdefault, (cells_store _ _ _).trans hcells, ?_⟩
    intro i
    rw [fillTo, read_store (by omega), hread]
    split_ifs <;> first | rfl | omega

theorem Represents.get (h : lut.Represents table) (index : ℕ) : lut.get base index = table.get (offset base index) := by
  rw [StoredLUT.get, AbstractLUT.get]
  split_ifs with hlt
  · rw [List.getD_eq_getElem?_getD, h.read_eq _ hlt, Option.getD_some]
  · rw [List.getD_eq_default _ _ (by rw [h.length_eq]; omega), h.defaultValue_eq]

theorem represents_fresh (data : A) (value : α) :
    (fresh data value).Represents (⟨value, [], Nat.zero_le _⟩ : AbstractLUT α (lutLimit A nmax)) where
  defaultValue_eq := rfl
  length_eq := rfl
  dataSize_le := Nat.zero_le _
  read_eq := fun i hi ↦ absurd hi (Nat.not_lt_zero i)

theorem Represents.clear (h : lut.Represents table) : lut.clear.Represents table.clear where
  defaultValue_eq := h.defaultValue_eq
  length_eq := rfl
  dataSize_le := Nat.zero_le _
  read_eq := fun i hi ↦ absurd hi (Nat.not_lt_zero i)

theorem Represents.setDefaultValue (h : lut.Represents table) (value : α) :
    (lut.setDefaultValue value).Represents (table.setDefaultValue value) where
  defaultValue_eq := rfl
  length_eq := h.length_eq
  dataSize_le := h.dataSize_le
  read_eq := h.read_eq

theorem Represents.fill (h : lut.Represents table) (value : α) : (lut.fill value).Represents (table.fill value) := by
  obtain ⟨hsize, hdefault, hcells, hread⟩ := @fillTo_spec _ _ _ lut _ value h.dataSize_le
  constructor
  · exact h.defaultValue_eq.trans hdefault.symm
  · rw [AbstractLUT.fill, List.length_replicate, h.length_eq]
    exact hsize.symm
  · exact (hsize.trans_le h.dataSize_le).trans_eq hcells.symm
  · intro i hi
    have hlt : i < lut.dataSize := hi.trans_eq hsize
    have hvalue : LutArray.read (lut.fill value).data i = value := (hread i).trans (if_pos hlt)
    rw [hvalue, AbstractLUT.fill, List.getElem?_replicate, if_pos (by rwa [h.length_eq])]

theorem lt_lutLimit_iff : n < lutLimit A nmax ↔ n < nmax ∧ n < LutArray.capacity A := Nat.lt_min

theorem lutLimit_le_iff : lutLimit A nmax ≤ n ↔ nmax ≤ n ∨ LutArray.capacity A ≤ n := by
  rw [lutLimit]
  omega

/-- An element in use is written. -/
theorem Represents.store (h : lut.Represents table) (hn : n < lut.dataSize) (value : α)
    {table' : AbstractLUT α (lutLimit A nmax)} (hdefault : table'.defaultValue = table.defaultValue)
    (hdata : table'.data = table.data.set n value) : (lut.store n value).Represents table' := by
  have hcells := Nat.lt_of_lt_of_le hn h.dataSize_le
  constructor
  · exact hdefault.trans h.defaultValue_eq
  · rw [hdata, List.length_set, h.length_eq, dataSize_store]
  · rw [dataSize_store, cells_store]
    exact h.dataSize_le
  · intro i hi
    rw [hdata, List.getElem?_set, h.length_eq, if_pos hn, read_store hcells, h.read_eq i hi]
    split_ifs with hsame hsame' <;> first | rfl | omega

/-- The array is resized, the gap filled and the last element written. -/
theorem Represents.grow (h : lut.Represents table) (hn : lut.dataSize ≤ n) (value : α) {data : A}
    (hdata : LutArray.resize lut.data (n + 1) = some data) {table' : AbstractLUT α (lutLimit A nmax)}
    (hdefault : table'.defaultValue = table.defaultValue)
    (htable : table'.data = table.data ++ List.replicate (n - table.data.length) table.defaultValue ++ [value]) :
    (lut.grow n value data).Represents table' := by
  have hlength := h.length_eq
  obtain ⟨hsame, hlast, hread⟩ :=
    @grow_spec _ _ _ n value data lut (LutArray.le_cells_resize lut.data (n + 1) data hdata)
  constructor
  · exact (hdefault.trans h.defaultValue_eq).trans hsame.symm
  · rw [htable, List.length_append, List.length_append, List.length_replicate, hlength, List.length_singleton]
    change lut.dataSize + (n - lut.dataSize) + 1 = n + 1
    omega
  · exact hlast
  · intro i hi
    have hlt : i < n + 1 := hi
    rw [hread i (Nat.le_of_lt_succ hlt), htable]
    rcases Nat.lt_trichotomy i n with hbefore | rfl | hbehind
    · rw [if_neg (Nat.ne_of_lt hbefore), List.append_assoc]
      split_ifs with hgap
      · rw [List.getElem?_append_right (by omega), List.getElem?_append_left, List.getElem?_replicate,
          if_pos (by omega), h.defaultValue_eq]
        rw [List.length_replicate]
        omega
      · have hused : i < lut.dataSize := Nat.lt_of_not_le hgap
        rw [List.getElem?_append_left (by omega), h.read_eq i hused,
          LutArray.read_resize lut.data (n + 1) data i hdata hlt (Nat.lt_of_lt_of_le hused h.dataSize_le)]
    · rw [if_pos rfl, List.getElem?_append_right]
      · simp only [List.length_append, List.length_replicate]
        rw [show i - (table.data.length + (i - table.data.length)) = 0 by omega]
        rfl
      · simp only [List.length_append, List.length_replicate]
        omega
    · omega

/-- The list is set as the table is, or the table throws and stays as it is. -/
theorem Represents.set (h : lut.Represents table) (base : ℤ) (index : ℕ) (value : α) :
    wp (StoredLUT.set base nmax index value)
      (fun _ lut' ↦ ∃ table', table.set (offset base index) value = some table' ∧ lut'.Represents table')
      (fun _ lut' ↦ table.set (offset base index) value = none ∧ lut' = lut) lut := by
  have hlength := h.length_eq
  have hnone : lutLimit A nmax ≤ offset base index → table.set (offset base index) value = none := by
    intro hlimit
    rw [← Option.not_isSome_iff_eq_none, AbstractLUT.isSome_set_iff]
    omega
  rw [StoredLUT.set, wp_bind, wp_get, wp_ite]
  constructor
  · intro hused
    rw [wp_modify]
    exact ⟨_, dif_pos (by rwa [hlength]), h.store hused value rfl rfl⟩
  intro hbehind
  rw [wp_ite]
  constructor
  · intro hmax
    cases hresize : LutArray.resize lut.data (offset base index + 1) with
    | none =>
      have hcapacity := (LutArray.resize_eq_none lut.data (offset base index + 1)).mp hresize
      rw [wp_throw]
      exact ⟨hnone (lutLimit_le_iff.mpr (.inr (Nat.le_of_lt_succ hcapacity))), rfl⟩
    | some data =>
      have hcapacity : ¬ LutArray.capacity A < offset base index + 1 := by
        intro hless
        have hthrows := (LutArray.resize_eq_none lut.data _).mpr hless
        rw [hresize] at hthrows
        cases hthrows
      have hlimit : offset base index < lutLimit A nmax := lt_lutLimit_iff.mpr ⟨hmax, by omega⟩
      rw [wp_modify]
      refine ⟨{ table with
        data := table.data ++ List.replicate (offset base index - table.data.length) table.defaultValue ++ [value]
        size_le := ?_ }, ?_, h.grow (Nat.le_of_not_lt hbehind) value hresize rfl rfl⟩
      · simp only [List.length_append, List.length_replicate, List.length_singleton]
        omega
      · rw [AbstractLUT.set, dif_neg (by rwa [hlength]), dif_pos hlimit]
  · intro hmax
    rw [wp_throw]
    exact ⟨hnone (lutLimit_le_iff.mpr (.inl (Nat.le_of_not_lt hmax))), rfl⟩

theorem Represents.setDefault (h : lut.Represents table) (base : ℤ) (index : ℕ) :
    wp (StoredLUT.setDefault base nmax index)
      (fun _ lut' ↦ ∃ table', table.set (offset base index) table.defaultValue = some table' ∧ lut'.Represents table')
      (fun _ lut' ↦ table.set (offset base index) table.defaultValue = none ∧ lut' = lut) lut := by
  rw [StoredLUT.setDefault, wp_bind, wp_get, h.defaultValue_eq]
  exact h.set base index lut.defaultValue

end StoredLUT

end

/-! ## The table as a total map -/

/-- An operation on a table; a default value is set in front of a `clear`. -/
inductive LutCall (α : Type)
  | set (index : ℕ) (value : α)
  | setDefault (index : ℕ)
  | clear
  | setDefaultValueAndClear (value : α)
  | fill (value : α)
  | fillDefault

/-- What the operations said: the default value, what each element was given last since the table was
cleared, and how many elements there are. -/
structure LutHistory (α : Type) where
  defaultValue : α
  written : ℕ → Option α
  size : ℕ

section

variable {A α : Type} [LutArray A α]

def LutCall.exec (base : ℤ) (nmax : ℕ) : LutCall α → EStateM LutError (StoredLUT A α) Unit
  | .set index value => StoredLUT.set base nmax index value
  | .setDefault index => StoredLUT.setDefault base nmax index
  | .clear => modify StoredLUT.clear
  | .setDefaultValueAndClear value => modify fun lut ↦ (lut.setDefaultValue value).clear
  | .fill value => modify fun lut ↦ lut.fill value
  | .fillDefault => modify StoredLUT.fillDefault

/-- The operations one after the other; what they throw is caught. -/
def runLut (base : ℤ) (nmax : ℕ) (calls : List (LutCall α)) (lut : StoredLUT A α) : StoredLUT A α :=
  calls.foldl (fun lut call ↦ finalState (call.exec base nmax) lut) lut

namespace LutHistory

/-- The last value that an element was given, or else the default value. -/
def value (h : LutHistory α) (i : ℕ) : α := (h.written i).getD h.defaultValue

/-- A value is set for the element `i`; the size is one more than the largest of them. -/
def setAt (limit i : ℕ) (value : α) (h : LutHistory α) : LutHistory α :=
  if i < limit then { h with written := Function.update h.written i (some value), size := max h.size (i + 1) } else h

/-- All elements that there are get a value. -/
def fill (value : α) (h : LutHistory α) : LutHistory α :=
  { h with written := fun i ↦ if i < h.size then some value else h.written i }

/-- Nothing was set yet. -/
def cleared (value : α) : LutHistory α := ⟨value, fun _ ↦ none, 0⟩

end LutHistory

def LutCall.record (base : ℤ) (limit : ℕ) (h : LutHistory α) : LutCall α → LutHistory α
  | .set index value => h.setAt limit (StoredLUT.offset base index) value
  | .setDefault index => h.setAt limit (StoredLUT.offset base index) h.defaultValue
  | .clear => .cleared h.defaultValue
  | .setDefaultValueAndClear value => .cleared value
  | .fill value => h.fill value
  | .fillDefault => h.fill h.defaultValue

/-- The history of some operations on a table that was just made. -/
def lutHistory (base : ℤ) (limit : ℕ) (value : α) (calls : List (LutCall α)) : LutHistory α :=
  calls.foldl (LutCall.record base limit) (.cleared value)

/-- The list has what the history says. -/
structure AbstractLUT.Records {limit : ℕ} (table : AbstractLUT α limit) (h : LutHistory α) : Prop where
  defaultValue_eq : table.defaultValue = h.defaultValue
  length_eq : table.data.length = h.size
  get_eq : ∀ i, table.get i = h.value i

namespace AbstractLUT

variable {limit i : ℕ} {table table' : AbstractLUT α limit} {h : LutHistory α} {value : α}

theorem length_set (hset : table.set i value = some table') : table'.data.length = max table.data.length (i + 1) := by
  unfold AbstractLUT.set at hset
  split at hset
  · cases hset
    rw [List.length_set]
    omega
  · split at hset
    · cases hset
      simp only [List.length_append, List.length_replicate, List.length_singleton]
      omega
    · cases hset

theorem Records.set (h' : table.Records h) (hset : table.set i value = some table') :
    table'.Records (h.setAt limit i value) := by
  have hlimit : i < limit := AbstractLUT.isSome_set_iff.mp (Option.isSome_of_eq_some hset)
  rw [LutHistory.setAt, if_pos hlimit]
  constructor
  · exact (defaultValue_set hset).trans h'.defaultValue_eq
  · rw [length_set hset, h'.length_eq]
  · intro j
    rw [get_set hset, LutHistory.value]
    simp only [Function.update_apply]
    split_ifs
    · rfl
    · exact h'.get_eq j

theorem setAt_of_none (hset : table.set i value = none) (h : LutHistory α) : h.setAt limit i value = h := by
  rw [LutHistory.setAt, if_neg]
  intro hlimit
  have hsome := (@AbstractLUT.isSome_set_iff _ _ table i value).mpr hlimit
  rw [hset] at hsome
  cases hsome

theorem records_cleared (table : AbstractLUT α limit) : table.clear.Records (.cleared table.defaultValue) where
  defaultValue_eq := rfl
  length_eq := rfl
  get_eq := fun _ ↦ rfl

theorem Records.fill (h' : table.Records h) (value : α) : (table.fill value).Records (h.fill value) := by
  constructor
  · exact h'.defaultValue_eq
  · rw [AbstractLUT.fill, List.length_replicate, h'.length_eq]
    rfl
  · intro j
    have hget := h'.get_eq j
    rw [LutHistory.value, LutHistory.fill]
    simp only
    split_ifs with hj
    · rw [AbstractLUT.get, AbstractLUT.fill, List.getD_replicate, Option.getD_some]
      rwa [h'.length_eq]
    · have hbehind : table.data.length ≤ j := by
        rw [h'.length_eq]
        omega
      rw [get_of_length_le hbehind] at hget
      rw [get_of_length_le, AbstractLUT.fill]
      · exact hget
      · rwa [AbstractLUT.fill, List.length_replicate]

end AbstractLUT

/-- The stored table has what the history says. -/
def StoredLUT.Follows (nmax : ℕ) (lut : StoredLUT A α) (h : LutHistory α) : Prop :=
  ∃ table : AbstractLUT α (lutLimit A nmax), lut.Represents table ∧ table.Records h

namespace StoredLUT

variable {base : ℤ} {nmax : ℕ} {lut : StoredLUT A α} {h : LutHistory α}

/-- A program that sets an element, or throws and leaves the table as it is. -/
theorem Follows.of_set {table : AbstractLUT α (lutLimit A nmax)} (hrepresents : lut.Represents table)
    (hrecords : table.Records h) {program : EStateM LutError (StoredLUT A α) Unit} {i : ℕ} {value : α}
    (hset : wp program (fun _ lut' ↦ ∃ table', table.set i value = some table' ∧ lut'.Represents table')
      (fun _ lut' ↦ table.set i value = none ∧ lut' = lut) lut) :
    wp program (fun _ lut' ↦ lut'.Follows nmax (h.setAt (lutLimit A nmax) i value))
      (fun _ lut' ↦ lut'.Follows nmax (h.setAt (lutLimit A nmax) i value)) lut := by
  apply wp_mono hset
  · rintro _ lut' ⟨table', hdone, hlut'⟩
    exact ⟨table', hlut', hrecords.set hdone⟩
  · rintro _ lut' ⟨hthrown, rfl⟩
    refine ⟨table, hrepresents, ?_⟩
    rwa [AbstractLUT.setAt_of_none hthrown]

/-- Each operation does what it says. -/
theorem Follows.step (hlut : lut.Follows nmax h) (call : LutCall α) :
    (finalState (call.exec base nmax) lut).Follows nmax (call.record base (lutLimit A nmax) h) := by
  obtain ⟨table, hrepresents, hrecords⟩ := hlut
  refine @finalState_of_wp _ _ _ (call.exec base nmax) lut
    (fun lut' ↦ lut'.Follows nmax (call.record base (lutLimit A nmax) h)) ?_
  cases call with
  | set index value => exact Follows.of_set hrepresents hrecords (hrepresents.set base index value)
  | setDefault index =>
    have hset := hrepresents.setDefault base index
    rw [hrecords.defaultValue_eq] at hset
    exact Follows.of_set hrepresents hrecords hset
  | clear =>
    refine ⟨table.clear, hrepresents.clear, ?_⟩
    rw [LutCall.record, ← hrecords.defaultValue_eq]
    exact table.records_cleared
  | setDefaultValueAndClear value =>
    exact ⟨(table.setDefaultValue value).clear, (hrepresents.setDefaultValue value).clear,
      (table.setDefaultValue value).records_cleared⟩
  | fill value => exact ⟨table.fill value, hrepresents.fill value, hrecords.fill value⟩
  | fillDefault =>
    refine ⟨table.fill lut.defaultValue, hrepresents.fill lut.defaultValue, ?_⟩
    rw [LutCall.record, ← hrecords.defaultValue_eq, hrepresents.defaultValue_eq]
    exact hrecords.fill lut.defaultValue

theorem follows_run (base : ℤ) (nmax : ℕ) (data : A) (value : α) (calls : List (LutCall α)) :
    (runLut base nmax calls (fresh data value)).Follows nmax (lutHistory base (lutLimit A nmax) value calls) := by
  induction calls using List.reverseRecOn with
  | nil => exact ⟨_, represents_fresh data value, AbstractLUT.records_cleared ⟨value, [], Nat.zero_le _⟩⟩
  | append_singleton calls call ih =>
    rw [runLut, lutHistory, Runs.foldl_concat, Runs.foldl_concat]
    exact ih.step call

end StoredLUT

/-- After any operations an element has the value that the history says, the size is the one it says, and
the next `set` throws and changes nothing exactly if its element is beyond the limit. -/
def IsTotalMap (A : Type) {α : Type} [LutArray A α] (base : ℤ) (nmax : ℕ) : Prop :=
  ∀ (data : A) (value : α) (calls : List (LutCall α)),
    (∀ index, (runLut base nmax calls (.fresh data value)).get base index =
      (lutHistory base (lutLimit A nmax) value calls).value (StoredLUT.offset base index)) ∧
    (runLut base nmax calls (.fresh data value)).dataSize = (lutHistory base (lutLimit A nmax) value calls).size ∧
    ∀ index value',
      wp (StoredLUT.set base nmax index value') (fun _ _ ↦ StoredLUT.offset base index < lutLimit A nmax)
        (fun _ lut ↦ lutLimit A nmax ≤ StoredLUT.offset base index ∧ lut = runLut base nmax calls (.fresh data value))
        (runLut base nmax calls (.fresh data value))

theorem isTotalMap (A : Type) {α : Type} [LutArray A α] (base : ℤ) (nmax : ℕ) : IsTotalMap A base nmax := by
  intro data value calls
  obtain ⟨table, hrepresents, hrecords⟩ := StoredLUT.follows_run base nmax data value calls
  refine ⟨?_, ?_, ?_⟩
  · intro index
    rw [hrepresents.get, hrecords.get_eq]
  · rw [← hrepresents.length_eq, hrecords.length_eq]
  · intro index value'
    apply wp_mono (hrepresents.set base index value')
    · rintro _ _ ⟨table', hset, -⟩
      exact AbstractLUT.isSome_set_iff.mp (Option.isSome_of_eq_some hset)
    · rintro _ lut ⟨hset, rfl⟩
      refine ⟨?_, rfl⟩
      by_contra hlimit
      have hsome := (@AbstractLUT.isSome_set_iff _ _ table (StoredLUT.offset base index) value').mpr (by omega)
      rw [hset] at hsome
      cases hsome

end

/-- Both kinds of tables are total maps. -/
theorem luts_total {α : Type} [Inhabited α] (base : ℤ) (nmax : ℕ) :
    IsTotalMap (List α) base nmax ∧ IsTotalMap (LutArrayWrapper α nmax) base nmax :=
  ⟨isTotalMap _ base nmax, isTotalMap _ base nmax⟩

end DxApi.Cursor
