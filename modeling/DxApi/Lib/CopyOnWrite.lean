import Mathlib.Logic.Function.Basic

/-!
# Two copies of a state, one of them written to

A reader uses the main copy; writers use the shadow copy, which is made from the main copy by the
first write after the reader took over. What matters is the latest copy: a write changes it, and
nothing else does.
-/

namespace DxApi

/-- Two copies, which of them is read and which written, and whether the reader has something to
take over. -/
structure CopyOnWrite (α : Type) where
  copies : Bool → α
  main : Bool
  shadow : Bool
  updated : Bool

namespace CopyOnWrite

variable {α : Type}

/-- The copy that the reader uses. -/
def current (m : CopyOnWrite α) : α := m.copies m.main

/-- The copy that was written last. -/
def latest (m : CopyOnWrite α) : α := m.copies m.shadow

/-- The reader has something to take over exactly when it uses the other copy. -/
def WellFormed (m : CopyOnWrite α) : Prop := m.updated = true ↔ m.main ≠ m.shadow

/-- Both copies the same, and nothing to take over. -/
def ofValue (value : α) : CopyOnWrite α := ⟨fun _ ↦ value, false, false, false⟩

/-- Before a write: the shadow copy is made, unless it is there. -/
def forWriting (m : CopyOnWrite α) : CopyOnWrite α :=
  if m.main = m.shadow then
    { m with
      copies := Function.update m.copies (!m.main) (m.copies m.main)
      shadow := !m.main
      updated := true }
  else m

/-- A write to the shadow copy. -/
def write (f : α → α) (m : CopyOnWrite α) : CopyOnWrite α :=
  { m with copies := Function.update m.copies m.shadow (f m.latest) }

/-- A write of the reader to the main copy. -/
def writeMain (f : α → α) (m : CopyOnWrite α) : CopyOnWrite α :=
  { m with copies := Function.update m.copies m.main (f m.current) }

/-- The reader takes over what was written. -/
def takeOver (m : CopyOnWrite α) : CopyOnWrite α :=
  if m.updated then { m with main := m.shadow, updated := false } else m

variable {m : CopyOnWrite α} {f : α → α}

@[simp]
theorem latest_ofValue (value : α) : (ofValue value).latest = value := rfl

theorem wellFormed_ofValue (value : α) : (ofValue value).WellFormed := by simp [WellFormed, ofValue]

@[simp]
theorem latest_forWriting (m : CopyOnWrite α) : m.forWriting.latest = m.latest := by
  unfold forWriting
  split
  · next h => simp [latest, h]
  · rfl

@[simp]
theorem latest_write (f : α → α) (m : CopyOnWrite α) : (m.write f).latest = f m.latest := by
  simp [write, latest]

@[simp]
theorem latest_takeOver (m : CopyOnWrite α) : m.takeOver.latest = m.latest := by
  unfold takeOver latest
  split <;> rfl

theorem wellFormed_forWriting (h : m.WellFormed) : m.forWriting.WellFormed := by
  unfold forWriting
  split
  · simp [WellFormed]
  · exact h

theorem wellFormed_write (h : m.WellFormed) : (m.write f).WellFormed := h

theorem wellFormed_writeMain (h : m.WellFormed) : (m.writeMain f).WellFormed := h

theorem wellFormed_takeOver (h : m.WellFormed) : m.takeOver.WellFormed := by
  unfold takeOver
  split
  · simp [WellFormed]
  · exact h

/-- Having taken over, the reader uses the latest copy. -/
theorem main_takeOver (h : m.WellFormed) : m.takeOver.main = m.takeOver.shadow := by
  unfold takeOver
  split
  · rfl
  · next hupdated =>
    by_contra hne
    exact hupdated (h.mpr hne)

theorem current_takeOver (h : m.WellFormed) : m.takeOver.current = m.latest := by
  rw [← latest_takeOver m, current, latest, main_takeOver h]

/-- What the reader writes after it has taken over is the latest. -/
theorem latest_writeMain_takeOver (h : m.WellFormed) : (m.takeOver.writeMain f).latest = f m.latest := by
  have hmain := main_takeOver h
  have hcurrent := current_takeOver h
  simp only [writeMain, latest, ← hmain, Function.update_self, hcurrent]

end CopyOnWrite

end DxApi
