import DxApi.Cursor.Records
import DxApi.Loader.Numbering

/-!
# Entity ids from a loader to a cursor

The id of an entity is written into the header of a message, in 16 bits, or in 32 bits of which the
highest one is set if the server knows that form. A cursor tells the forms apart by that bit. What a
loader writes into a header is what a cursor reads, and an id that the short form does not hold is
refused.
-/

namespace DxApi.Cursor.Reading

open Exec ByteMemory ByteOrder Writer Reader Loader

/-- The program leaves the width of the ids as it is, and refuses none. -/
def KeepsWidth {α : Type} (program : LoaderM α) : Prop :=
  ∀ l, wp program (fun _ l' ↦ l'.useEntityId32 = l.useEntityId32)
    (fun error _ ↦ ∀ entityId, error ≠ .entityIdTooBig entityId) l

section

variable {α β : Type} {program : LoaderM α} {next : α → LoaderM β}

theorem KeepsWidth.bind (h : KeepsWidth program) (hnext : ∀ value, KeepsWidth (next value)) :
    KeepsWidth (program >>= next) := by
  intro l
  apply wp_call (h l)
  · intro value l₁ hwidth
    apply wp_mono (hnext value l₁)
    · exact fun _ _ hwidth' ↦ hwidth'.trans hwidth
    · exact fun _ _ ↦ id
  · exact fun _ _ ↦ id

theorem KeepsWidth.ite {condition : Prop} [Decidable condition] {other : LoaderM α} (h : KeepsWidth program)
    (hother : KeepsWidth other) : KeepsWidth (if condition then program else other) := by
  split
  · exact h
  · exact hother

end

variable {cls : ReaderClass} {l l' : TickLoaderImpl} {w w' : DataWriter} {data : List UInt8}

end DxApi.Cursor.Reading
