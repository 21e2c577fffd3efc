import DxApi.Cursor.DynamicLut
import Mathlib.Data.List.Nodup
import Mathlib.Logic.Function.Basic

/-!
# What the server has registered

Instruments, message types and streams are numbered in the order in which the server announces them.
An instrument has one number; several message descriptors may have the same type name, and each of
them refers to the one with that name before it.
-/

namespace DxApi.Cursor

abbrev Name := List UInt8

/-- `EMPTY_MSG_TYPE_ID`. -/
def emptyMsgTypeId : ℕ := 0xFFFFFFFF

/-- `SymbolTranslator::MessageDescriptor`; its number is its place. -/
structure MessageDescriptor where
  nextSameType : ℕ
  typeName : Name
  guid : Name
  deriving DecidableEq, Repr

/-- The number of the last descriptor with a type name. -/
def lastOfType (name : Name) : List MessageDescriptor → Option ℕ
  | [] => none
  | descriptor :: descriptors =>
    match lastOfType name descriptors with
    | some id => some (id + 1)
    | none => if descriptor.typeName = name then some 0 else none

section

variable {name : Name} {descriptors : List MessageDescriptor} {id : ℕ}

theorem lastOfType_append (name : Name) (descriptors : List MessageDescriptor)
    (descriptor : MessageDescriptor) :
    lastOfType name (descriptors ++ [descriptor]) =
      if descriptor.typeName = name then some descriptors.length else lastOfType name descriptors := by
  induction descriptors with
  | nil => rfl
  | cons first descriptors ih =>
    rw [List.cons_append, lastOfType, ih]
    split
    · next hsome =>
      split at hsome
      · next hname =>
        cases hsome
        simp [hname]
      · next hname => simp [hname, lastOfType, hsome]
    · next hnone =>
      split at hnone
      · cases hnone
      · next hname => simp [hname, lastOfType, hnone]

theorem lastOfType_eq_some (h : lastOfType name descriptors = some id) :
    ∃ descriptor, descriptors[id]? = some descriptor ∧ descriptor.typeName = name := by
  induction descriptors generalizing id with
  | nil => cases h
  | cons first descriptors ih =>
    rw [lastOfType] at h
    split at h
    · next hlast =>
      cases h
      exact ih hlast
    · split at h
      · next hname =>
        cases h
        exact ⟨first, rfl, hname⟩
      · cases h

theorem lastOfType_lt (h : lastOfType name descriptors = some id) : id < descriptors.length := by
  have hget := lastOfType_eq_some h
  grind

/-- No descriptor after the last one has the name. -/
theorem le_lastOfType {i : ℕ} {descriptor : MessageDescriptor} (hget : descriptors[i]? = some descriptor)
    (hname : descriptor.typeName = name) : ∃ id, lastOfType name descriptors = some id ∧ i ≤ id := by
  induction descriptors generalizing i with
  | nil => cases hget
  | cons first descriptors ih =>
    rw [lastOfType]
    cases i with
    | zero =>
      cases hget
      cases hlast : lastOfType name descriptors with
      | none => simp [hname]
      | some id => exact ⟨_, rfl, Nat.zero_le _⟩
    | succ i =>
      have hlater := ih hget
      grind

theorem lastOfType_eq_none (h : lastOfType name descriptors = none) {i : ℕ}
    {descriptor : MessageDescriptor} (hget : descriptors[i]? = some descriptor) :
    descriptor.typeName ≠ name := by
  intro hname
  have hlast := le_lastOfType hget hname
  grind

end

/-- `SymbolTranslator`. The index of the types is kept with the descriptors it is made from. -/
structure SymbolTranslator where
  /-- `instruments`: the names by number, each of them once. -/
  instruments : List Name
  instruments_nodup : instruments.Nodup
  messageDescriptors : List MessageDescriptor
  typeIndex : Name → Option ℕ
  typeIndex_eq : ∀ name, typeIndex name = lastOfType name messageDescriptors
  nextSameType_eq : ∀ id descriptor, messageDescriptors[id]? = some descriptor →
    descriptor.nextSameType =
      (lastOfType descriptor.typeName (messageDescriptors.take id)).getD emptyMsgTypeId
  types_le : messageDescriptors.length ≤ 0x100
  streamIndex : Name → Option ℕ
  streamKeys : List Name

namespace SymbolTranslator

variable {tables : SymbolTranslator}

/-- Nothing is registered. -/
def empty : SymbolTranslator where
  instruments := []
  instruments_nodup := List.nodup_nil
  messageDescriptors := []
  typeIndex := fun _ ↦ none
  typeIndex_eq := fun _ ↦ rfl
  nextSameType_eq := by
    intro id descriptor hget
    cases hget
  types_le := Nat.zero_le _
  streamIndex := fun _ ↦ none
  streamKeys := []

/-- `findInstrument`. -/
def findInstrument (tables : SymbolTranslator) (name : Name) : Option ℕ :=
  tables.instruments.findIdx? (· == name)

def findMsgDescByType (tables : SymbolTranslator) (name : Name) : Option ℕ := tables.typeIndex name

def findStreamId (tables : SymbolTranslator) (name : Name) : Option ℕ := tables.streamIndex name

def isRegisteredInstrumentId (tables : SymbolTranslator) (id : ℕ) : Bool :=
  id < tables.instruments.length

def isRegisteredMsgDescId (tables : SymbolTranslator) (id : ℕ) : Bool :=
  id < tables.messageDescriptors.length

/-- `registerInstrument` with the next number; nothing when it throws. -/
def registerInstrument (tables : SymbolTranslator) (name : Name) : Option SymbolTranslator :=
  if hnew : tables.instruments.contains name then none
  else
    some { tables with
      instruments := tables.instruments ++ [name]
      instruments_nodup := by
        rw [List.nodup_append]
        refine ⟨tables.instruments_nodup, List.nodup_singleton _, ?_⟩
        intro a ha b hb hab
        rw [List.mem_singleton] at hb
        exact hnew (List.contains_iff_mem.mpr (hb ▸ hab ▸ ha)) }

/-- `registerMessageDescriptor` with the next number; nothing when it throws. -/
def registerMessageDescriptor (tables : SymbolTranslator) (typeName guid : Name) :
    Option SymbolTranslator :=
  if hfits : tables.messageDescriptors.length < 0x100 then
    some { tables with
      messageDescriptors := tables.messageDescriptors ++
        [⟨(tables.findMsgDescByType typeName).getD emptyMsgTypeId, typeName, guid⟩]
      typeIndex := Function.update tables.typeIndex typeName (some tables.messageDescriptors.length)
      typeIndex_eq := by
        intro name
        rw [lastOfType_append, Function.update_apply]
        split
        · next hname => simp [hname]
        · next hname =>
          rw [if_neg (Ne.symm hname)]
          exact tables.typeIndex_eq name
      nextSameType_eq := by
        intro id descriptor hget
        have hspec := tables.nextSameType_eq id descriptor
        rw [List.getElem?_append] at hget
        split at hget
        · next hid =>
          rw [hspec hget, List.take_append_of_le_length (Nat.le_of_lt hid)]
        · next hid =>
          have hlast : id = tables.messageDescriptors.length := by
            grind
          subst hlast
          rw [Nat.sub_self, List.getElem?_cons_zero, Option.some.injEq] at hget
          subst hget
          rw [List.take_left, findMsgDescByType, tables.typeIndex_eq]
      types_le := by
        rw [List.length_append]
        exact hfits }
  else none

/-- What `registerInstrument` changes. -/
theorem registerInstrument_eq_some {tables' : SymbolTranslator} {name : Name}
    (h : tables.registerInstrument name = some tables') :
    name ∉ tables.instruments ∧ tables'.instruments = tables.instruments ++ [name] ∧
      tables'.messageDescriptors = tables.messageDescriptors ∧ tables'.typeIndex = tables.typeIndex := by
  unfold registerInstrument at h
  split at h
  · cases h
  · next hnew =>
    cases h
    exact ⟨fun hmem ↦ hnew (List.contains_iff_mem.mpr hmem), rfl, rfl, rfl⟩

/-- What `registerMessageDescriptor` changes. -/
theorem registerMessageDescriptor_eq_some {tables' : SymbolTranslator} {typeName guid : Name}
    (h : tables.registerMessageDescriptor typeName guid = some tables') :
    tables.messageDescriptors.length < 0x100 ∧ tables'.instruments = tables.instruments ∧
      (∃ nextSameType, tables'.messageDescriptors =
        tables.messageDescriptors ++ [⟨nextSameType, typeName, guid⟩]) ∧
      tables'.typeIndex =
        Function.update tables.typeIndex typeName (some tables.messageDescriptors.length) := by
  unfold registerMessageDescriptor at h
  split at h
  · next hfits =>
    cases h
    exact ⟨hfits, rfl, ⟨_, rfl⟩, rfl⟩
  · cases h

end SymbolTranslator

end DxApi.Cursor
