import Mathlib.Data.List.GetD

/-!
# Lookup tables with a default

`AbstractLUT` is an array that grows when an element is set, up to `NMAX` elements; an element that
was never set has the default value.
-/

namespace DxApi.Cursor

/-- `VectorLUT` and `ArrayLUT` with base 0. -/
structure AbstractLUT (α : Type) (nmax : ℕ) where
  defaultValue : α
  data : List α
  size_le : data.length ≤ nmax
  deriving DecidableEq

namespace AbstractLUT

variable {α : Type} {nmax : ℕ}

def get (lut : AbstractLUT α nmax) (index : ℕ) : α := lut.data.getD index lut.defaultValue

/-- `set`; nothing when it throws `out_of_range`. -/
def set (lut : AbstractLUT α nmax) (index : ℕ) (value : α) : Option (AbstractLUT α nmax) :=
  if hindex : index < lut.data.length then
    some { lut with data := lut.data.set index value, size_le := by simpa using lut.size_le }
  else if hmax : index < nmax then
    some { lut with
      data := lut.data ++ List.replicate (index - lut.data.length) lut.defaultValue ++ [value]
      size_le := by simp; omega }
  else none

def clear (lut : AbstractLUT α nmax) : AbstractLUT α nmax := ⟨lut.defaultValue, [], Nat.zero_le _⟩

def setDefaultValue (lut : AbstractLUT α nmax) (value : α) : AbstractLUT α nmax :=
  { lut with defaultValue := value }

variable {lut lut' : AbstractLUT α nmax} {index : ℕ} {value : α}

@[simp]
theorem defaultValue_clear (lut : AbstractLUT α nmax) : lut.clear.defaultValue = lut.defaultValue := rfl

@[simp]
theorem defaultValue_setDefaultValue (lut : AbstractLUT α nmax) (value : α) :
    (lut.setDefaultValue value).defaultValue = value := rfl

@[simp]
theorem get_clear (lut : AbstractLUT α nmax) (index : ℕ) : lut.clear.get index = lut.defaultValue := rfl

/-- An element behind the end has the default value. -/
theorem get_of_length_le (h : lut.data.length ≤ index) : lut.get index = lut.defaultValue :=
  List.getD_eq_default _ _ h

theorem isSome_set_iff : (lut.set index value).isSome ↔ index < nmax := by
  have hsize := lut.size_le
  unfold set
  split
  · simp only [Option.isSome_some, true_iff]
    omega
  · split <;> simp_all

theorem defaultValue_set (h : lut.set index value = some lut') : lut'.defaultValue = lut.defaultValue := by
  unfold set at h
  split at h
  · cases h
    rfl
  · split at h
    · cases h
      rfl
    · cases h

theorem get_set (h : lut.set index value = some lut') (i : ℕ) :
    lut'.get i = if i = index then value else lut.get i := by
  unfold set at h
  split at h
  · cases h
    grind [get]
  · split at h
    · cases h
      grind [get]
    · cases h

theorem length_set_le {bound : ℕ} (h : lut.set index value = some lut') (hlength : lut.data.length ≤ bound)
    (hindex : index < bound) : lut'.data.length ≤ bound := by
  unfold set at h
  split at h
  · cases h
    simpa using hlength
  · split at h
    · cases h
      simp only [List.length_append, List.length_replicate, List.length_singleton]
      omega
    · cases h

end AbstractLUT

end DxApi.Cursor
