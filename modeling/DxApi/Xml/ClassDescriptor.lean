import DxApi.Lib.Selection
import DxApi.Net.TransferForm
import Mathlib.Data.List.AList

/-!
# The classes of a schema

A schema is a tree of XML elements. Its class descriptors are parsed, the content classes are moved to the front
in the order of their ids, and then parents and enums are linked by the place of their class. The loops over the
elements of one name start at the first such element, but go on to every element behind it, of any name.
-/

namespace DxApi.Xml

open Net Request

abbrev Text := List UInt8

/-! ## The elements -/

/-- An `XMLElement`: its attributes, the text that is its first child if that is a text, and its elements. -/
inductive XMLElement
  | mk (name : Text) (attributes : List (Text × Text)) (text : Option Text) (children : List XMLElement)

namespace XMLElement

/-- `Name`. -/
def name : XMLElement → Text
  | mk name _ _ _ => name

/-- `GetText`. -/
def text : XMLElement → Option Text
  | mk _ _ text _ => text

def children : XMLElement → List XMLElement
  | mk _ _ _ children => children

/-- `Attribute`. -/
def attributeValue (root : XMLElement) (name : Text) : Option Text :=
  match root with
  | mk _ attributes _ _ => attributes.lookup name

def firstChildElement (root : XMLElement) (name : Text) : Option XMLElement :=
  root.children.find? fun child ↦ child.name = name

/-- `getText`, of the first child of a name. -/
def getText (root : XMLElement) (childName : Text) : Option Text := (root.firstChildElement childName).bind text

/-- The elements of `FOR_XML_ELEMENTS`: the first child of the name and all that follow it. -/
def elementsFrom (root : XMLElement) (name : Text) : List XMLElement :=
  root.children.dropWhile fun child ↦ child.name ≠ name

end XMLElement

/-! ## The source -/

/-- `FieldType`, a byte. -/
structure FieldType where
  value : ℕ
  deriving DecidableEq, Repr

namespace FieldType

def UNKNOWN : FieldType := ⟨0⟩

def ENUM8 : FieldType := ⟨18⟩

def infoFieldType : List Text :=
  ["UNKNOWN", "INTEGER-INT8", "INTEGER-INT16", "INTEGER-INT32", "INTEGER-INT48", "INTEGER-INT64", "boolean", "char",
    "timeOfDay", "FLOAT-IEEE32", "FLOAT-IEEE64", "FLOAT-DECIMAL", "VARCHAR-ALPHANUMERIC(10)", "VARCHAR-UTF8",
    "INTEGER-PUINT30", "INTEGER-PUINT61", "INTEGER-PINTERVAL", "ENUM8", "ENUM16", "ENUM32", "ENUM64", "object",
    "array", "BINARY", "PTIME", "25", "26", "27", "28", "29", "30", "31", "NULLABLE"].map text

/-- The place of the name in the table, all ones when it has none. -/
def fromString (s : Text) : FieldType := ⟨(infoFieldType.findIdx? (· = s)).getD 0xFF⟩

end FieldType

/-- The value of a `FieldTypeDescriptor`. -/
def fieldTypeDescriptor (type : FieldType) (size : ℕ) (isNullable : Bool) : ℕ :=
  type.value ||| ((size &&& 0xFFFF) <<< 8) ||| (if isNullable then 0x20 else 0)

structure DataType where
  descriptor : ℕ
  typeName : Text
  encodingName : Text
  descriptorGuid : Text
  isNullable : Bool
  elementType : Option DataType
  types : List Text

/-- The type with another descriptor. -/
def DataType.setDescriptor (dataType : DataType) (descriptor : ℕ) : DataType :=
  { dataType with descriptor := descriptor }

@[simp] theorem DataType.setDescriptor_descriptor (dataType : DataType) (descriptor : ℕ) :
    (dataType.setDescriptor descriptor).descriptor = descriptor := rfl

@[simp] theorem DataType.setDescriptor_self (dataType : DataType) :
    dataType.setDescriptor dataType.descriptor = dataType := by
  cases dataType
  rfl

structure FieldInfo where
  name : Text
  relativeTo : Text
  dataType : DataType

/-- `TickDbClassDescriptor`. -/
structure ClassDescriptor where
  className : Text
  guid : Text
  parentGuid : Text
  enumType : FieldType
  symbolToEnumValue : AList fun _ : Text ↦ ℤ
  enumSymbols : List Text
  isContentClass : Bool
  fields : List FieldInfo
  parentIndex : ℤ

inductive SchemaError
  /-- `NULL` for a text. -/
  | nullText
  | invalidEnumValue (x : ℤ)
  | emptyArrayElement
  | unknownClassType
  deriving DecidableEq, Repr

/-- A text that must not be `NULL`. -/
def notNull : Option Text → Except SchemaError Text
  | some source => .ok source
  | none => .error .nullText

/-- `parse` of a truth value, which stays as it is when the text is neither. -/
def parseBool (before : Bool) (source : Option Text) : Bool :=
  match source with
  | none => before
  | some source =>
    if source.map lower = text "true" then true else if source.map lower = text "false" then false else before

/-- `strtoll`, to the base of ten. -/
def strtoll (source : Text) : ℤ := max (-2 ^ 63) (min (numberAhead source) (2 ^ 63 - 1))

mutual

/-- `parseDataType`, of an element. -/
def parseDataType : XMLElement → Except SchemaError DataType
  | .mk name attributes content children => do
    let dataTypeNode := XMLElement.mk name attributes content children
    let type ← notNull (dataTypeNode.attributeValue (text "xsi:type"))
    let encoding := dataTypeNode.getText (text "encoding")
    let types ← (children.filter fun child ↦ child.name = text "types").mapM fun child ↦ notNull child.text
    let isNullable := parseBool false (dataTypeNode.getText (text "nullable"))
    let typeDescription := type ++ encoding.elim [] (text "-" ++ ·)
    let elementType ← if typeDescription = text "array" then some <$> parseElementType children else pure none
    return {
      descriptor := fieldTypeDescriptor (FieldType.fromString typeDescription) 0 isNullable
      typeName := type
      encodingName := encoding.getD []
      descriptorGuid := (dataTypeNode.getText (text "descriptor")).getD []
      isNullable := isNullable
      elementType := elementType
      types := types }

/-- The type of the elements of an array, from the first of its children that is a type. -/
def parseElementType : List XMLElement → Except SchemaError DataType
  | [] => .error .emptyArrayElement
  | child :: children => if child.name = text "type" then parseDataType child else parseElementType children

end

/-- `parseDataType`, of no element. -/
def unknownType : DataType :=
  ⟨fieldTypeDescriptor FieldType.UNKNOWN 0 false, [], [], [], false, none, []⟩

/-- The members that the values of an enum set. -/
structure EnumValues where
  enumSizeMax : ℕ
  symbolToEnumValue : AList fun _ : Text ↦ ℤ
  enumSymbols : List Text

/-- `enumSize`. -/
def enumSize (x : ℤ) : ℕ :=
  if x < -2 ^ 31 ∨ x > 2 ^ 31 - 1 then 3
  else if x < -2 ^ 15 ∨ x > 2 ^ 15 - 1 then 2
  else if x < -2 ^ 7 ∨ x > 2 ^ 7 - 1 then 1
  else 0

/-- The loop over the values of an enum. -/
def parseEnumValue (values : EnumValues) (value : XMLElement) : Except SchemaError EnumValues :=
  match value.getText (text "value") with
  | none => .ok values
  | some enumValue =>
    let x := strtoll enumValue
    let values := { values with enumSizeMax := max values.enumSizeMax (enumSize x) }
    match value.getText (text "symbol") with
    | none => .ok values
    | some symbol =>
      if x < 0 ∨ x > 2048 then .error (.invalidEnumValue x)
      else
        let enumSymbols := values.enumSymbols ++ List.replicate (x.toNat + 1 - values.enumSymbols.length) []
        .ok { values with
          symbolToEnumValue := values.symbolToEnumValue.insert symbol x
          enumSymbols := enumSymbols.set x.toNat symbol }

/-- The loop over the fields of a record class. -/
def parseField (fields : List FieldInfo) (field : XMLElement) : Except SchemaError (List FieldInfo) := do
  if field.attributeValue (text "xsi:type") = some (text "nonStaticDataField") then
    match field.getText (text "name") with
    | none => return fields
    | some name =>
      let dataType ← match field.firstChildElement (text "type") with
        | none => pure unknownType
        | some fieldTypeElement => parseDataType fieldTypeElement
      return fields ++ [⟨name, (field.getText (text "relativeTo")).getD [], dataType⟩]
  else return fields

/-- `fromXML`, of a new descriptor; nothing when it returns false. -/
def fromXML (root : XMLElement) (parseFields : Bool) : Except SchemaError (Option ClassDescriptor) :=
  match root.getText (text "guid") with
  | none => .ok none
  | some guid => do
    let cls : ClassDescriptor := {
      className := (root.getText (text "name")).getD []
      guid := guid
      parentGuid := (root.getText (text "parent")).getD []
      enumType := FieldType.UNKNOWN
      symbolToEnumValue := ∅
      enumSymbols := []
      isContentClass := false
      fields := []
      parentIndex := -1 }
    let classType ← notNull (root.attributeValue (text "xsi:type"))
    if classType.map lower = text "enumclass" then
      let values ← (root.elementsFrom (text "value")).foldlM parseEnumValue ⟨0, ∅, []⟩
      return some { cls with
        enumType := ⟨FieldType.ENUM8.value + values.enumSizeMax⟩
        symbolToEnumValue := values.symbolToEnumValue
        enumSymbols := values.enumSymbols }
    else if classType.map lower = text "recordclass" then
      if parseFields then
        let fields ← (root.elementsFrom (text "field")).foldlM parseField []
        return some { cls with fields := fields }
      else return some cls
    else throw .unknownClassType

/-- The loop over the class descriptors: what the call returns if it ends here, and the descriptors. -/
def parseClasses (parseFields : Bool) :
    List XMLElement → List ClassDescriptor → Except SchemaError (Bool × List ClassDescriptor)
  | [], classes => .ok (true, classes)
  | child :: children, classes =>
    if (child.getText (text "guid")).isNone then parseClasses parseFields children classes
    else do
      match ← fromXML child parseFields with
      | none => return (false, classes)
      | some cls => parseClasses parseFields children (classes ++ [cls])

def markContentClass (cl : ClassDescriptor) : ClassDescriptor := { cl with isContentClass := true }

/-- The content classes are moved to the front. -/
def moveContentClasses (root : XMLElement) (classes : List ClassDescriptor) : List ClassDescriptor :=
  let contentGuids := (root.elementsFrom (text "contentClassId")).filterMap XMLElement.text
  (Selection.selectAll ClassDescriptor.guid markContentClass contentGuids classes).2

/-- A field of an enum has the type of its class. -/
def linkField (classes : List ClassDescriptor) (field : FieldInfo) : FieldInfo :=
  if field.dataType.typeName = text "enum" then
    { field with
      dataType := classes.foldl (fun dataType c2 ↦
        if dataType.descriptorGuid = c2.guid then
          dataType.setDescriptor (fieldTypeDescriptor c2.enumType 0 dataType.isNullable)
        else dataType) field.dataType }
  else field

/-- The parent and the enums of a class. -/
def linkClass (classes : List ClassDescriptor) (c : ClassDescriptor) : ClassDescriptor :=
  let parentIndex : ℤ :=
    if c.parentGuid.length ≠ 0 then
      match classes.findIdx? fun c2 ↦ c2.guid = c.parentGuid with
      | some j => j
      | none => c.parentIndex
    else c.parentIndex
  { c with
    parentIndex := parentIndex
    fields := c.fields.map (linkField classes) }

/-- `parseDescriptors`: what it returns, and the descriptors. -/
def parseDescriptors (classes : List ClassDescriptor) (root : Option XMLElement) (parseFields : Bool) :
    Except SchemaError (Bool × List ClassDescriptor) :=
  match root with
  | none => .ok (false, classes)
  | some root => do
    match ← parseClasses parseFields (root.elementsFrom (text "classDescriptor")) classes with
    | (false, classes) => return (false, classes)
    | (true, classes) =>
      let classes := moveContentClasses root classes
      return (true, classes.map (linkClass classes))

/-! ## A schema that was read -/

/-- The class descriptors that have a guid. -/
def classDescriptors (root : XMLElement) : List XMLElement :=
  root.children.filter fun child ↦ child.name = text "classDescriptor" ∧ (child.getText (text "guid")).isSome

def guidOf (child : XMLElement) : Text := (child.getText (text "guid")).getD []

/-- The ids of the content classes. -/
def contentClassIds (root : XMLElement) : List Text :=
  (root.children.filter fun child ↦ child.name = text "contentClassId").filterMap XMLElement.text

/-- The descriptors that the elements give, one each. -/
abbrev Parsed (parseFields : Bool) (children : List XMLElement) (parsed : List ClassDescriptor) : Prop :=
  List.Forall₂ (fun child c ↦ fromXML child parseFields = .ok (some c)) children parsed

/-- A field of the list, by the field that was parsed. -/
structure FieldLinked (classes : List ClassDescriptor) (parsed field : FieldInfo) : Prop where
  same : field = { parsed with dataType := parsed.dataType.setDescriptor field.dataType.descriptor }
  enum : parsed.dataType.typeName = text "enum" → ∀ c ∈ classes, c.guid = parsed.dataType.descriptorGuid →
    field.dataType.descriptor = fieldTypeDescriptor c.enumType 0 parsed.dataType.isNullable
  other : (parsed.dataType.typeName ≠ text "enum" ∨ ∀ c ∈ classes, c.guid ≠ parsed.dataType.descriptorGuid) →
    field.dataType.descriptor = parsed.dataType.descriptor

/-- A class of the list, by the class that was parsed. -/
structure ClassLinked (classes : List ClassDescriptor) (parsed c : ClassDescriptor) : Prop where
  same : c = { parsed with
    isContentClass := c.isContentClass
    fields := c.fields
    parentIndex := c.parentIndex }
  parent : parsed.parentGuid ≠ [] → ∀ (j : ℕ) (c2 : ClassDescriptor), classes[j]? = some c2 →
    c2.guid = parsed.parentGuid → c.parentIndex = j
  no_parent : (parsed.parentGuid = [] ∨ ∀ c2 ∈ classes, c2.guid ≠ parsed.parentGuid) → c.parentIndex = -1
  fields : List.Forall₂ (FieldLinked classes) parsed.fields c.fields

/-- The class descriptors of a schema in their order: the content classes first. -/
structure SchemaRead (root : XMLElement) (parseFields : Bool) (classes : List ClassDescriptor) : Prop where
  linked : ∃ parsed ordered, Parsed parseFields (classDescriptors root) parsed ∧ ordered.Perm parsed ∧
    List.Forall₂ (ClassLinked classes) ordered classes
  content_iff : ∀ c ∈ classes, c.isContentClass = true ↔ c.guid ∈ contentClassIds root
  content_first : ∃ content others, classes = content ++ others ∧ (∀ c ∈ content, c.isContentClass = true) ∧
    (∀ c ∈ others, c.isContentClass = false) ∧
    content.map ClassDescriptor.guid =
      Selection.firstAppearances ((classDescriptors root).map guidOf) (contentClassIds root)

/-- The elements that stand behind the first of their loop but have another name do not count: none has a guid
as a class descriptor has, and none has a text that changes the order in which the listed classes appear. -/
structure ReadByName (root : XMLElement) : Prop where
  no_guid : ∀ child ∈ root.elementsFrom (text "classDescriptor"), child.name ≠ text "classDescriptor" →
    child.getText (text "guid") = none
  same_ids : Selection.firstAppearances ((classDescriptors root).map guidOf)
      ((root.elementsFrom (text "contentClassId")).filterMap XMLElement.text) =
    Selection.firstAppearances ((classDescriptors root).map guidOf) (contentClassIds root)

/-! ## The class descriptors are linked -/

section

variable {classes : List ClassDescriptor}

@[simp] theorem linkClass_guid (classes : List ClassDescriptor) (c : ClassDescriptor) :
    (linkClass classes c).guid = c.guid := rfl

@[simp] theorem linkClass_enumType (classes : List ClassDescriptor) (c : ClassDescriptor) :
    (linkClass classes c).enumType = c.enumType := rfl

@[simp] theorem linkClass_isContentClass (classes : List ClassDescriptor) (c : ClassDescriptor) :
    (linkClass classes c).isContentClass = c.isContentClass := rfl

theorem guids_linked (classes l : List ClassDescriptor) :
    (l.map (linkClass classes)).map ClassDescriptor.guid = l.map ClassDescriptor.guid := by
  rw [List.map_map]
  rfl

/-- The type that one class gives a field. -/
def enumStep (dataType : DataType) (c2 : ClassDescriptor) : DataType :=
  if dataType.descriptorGuid = c2.guid then
    dataType.setDescriptor (fieldTypeDescriptor c2.enumType 0 dataType.isNullable)
  else dataType

/-- No class of the list is the enum. -/
theorem foldl_enumStep_of_none {dataType : DataType} {l : List ClassDescriptor}
    (hnone : ∀ c ∈ l, c.guid ≠ dataType.descriptorGuid) : l.foldl enumStep dataType = dataType := by
  induction l with
  | nil => rfl
  | cons c l ih =>
    have hc : dataType.descriptorGuid ≠ c.guid := (hnone c List.mem_cons_self).symm
    rw [List.foldl_cons, enumStep, if_neg hc]
    exact ih fun c hc ↦ hnone c (List.mem_cons_of_mem _ hc)

/-- The one class of the list that is the enum. -/
theorem foldl_enumStep_of_mem {dataType : DataType} {l : List ClassDescriptor} {c : ClassDescriptor}
    (hdistinct : (l.map ClassDescriptor.guid).Nodup) (hc : c ∈ l) (hguid : c.guid = dataType.descriptorGuid) :
    l.foldl enumStep dataType =
      dataType.setDescriptor (fieldTypeDescriptor c.enumType 0 dataType.isNullable) := by
  obtain ⟨before, after, rfl⟩ := List.append_of_mem hc
  have hfirst := ((List.perm_middle (a := c)).map ClassDescriptor.guid).nodup_iff.mp hdistinct
  have hother (c2 : ClassDescriptor) (hc2 : c2 ∈ before ++ after) : c2.guid ≠ dataType.descriptorGuid := by
    intro hsame
    exact (List.nodup_cons.mp hfirst).1 (hguid ▸ hsame ▸ List.mem_map_of_mem hc2)
  have hbefore : before.foldl enumStep dataType = dataType :=
    foldl_enumStep_of_none fun c2 hc2 ↦ hother c2 (List.mem_append_left _ hc2)
  have hstep : enumStep dataType c =
      dataType.setDescriptor (fieldTypeDescriptor c.enumType 0 dataType.isNullable) := by
    rw [enumStep, if_pos hguid.symm]
  rw [List.foldl_append, hbefore, List.foldl_cons, hstep]
  exact foldl_enumStep_of_none fun c2 hc2 ↦ hother c2 (List.mem_append_right _ hc2)

theorem linkField_linked (hdistinct : (classes.map ClassDescriptor.guid).Nodup) (field : FieldInfo) :
    FieldLinked (classes.map (linkClass classes)) field (linkField classes field) := by
  have hlink : linkField classes field =
      if field.dataType.typeName = text "enum" then
        { field with dataType := classes.foldl enumStep field.dataType }
      else field := rfl
  have hlisted : (∀ c ∈ classes.map (linkClass classes), c.guid ≠ field.dataType.descriptorGuid) ↔
      ∀ c ∈ classes, c.guid ≠ field.dataType.descriptorGuid := by
    simp
  rw [hlink]
  by_cases henum : field.dataType.typeName = text "enum"
  · rw [if_pos henum]
    by_cases hnone : ∀ c ∈ classes, c.guid ≠ field.dataType.descriptorGuid
    · rw [foldl_enumStep_of_none hnone]
      exact ⟨by simp, fun _ c hc hguid ↦ absurd hguid (hlisted.mpr hnone c hc), fun _ ↦ rfl⟩
    · simp only [not_forall, not_not] at hnone
      obtain ⟨c, hc, hguid⟩ := hnone
      rw [foldl_enumStep_of_mem hdistinct hc hguid]
      refine ⟨rfl, ?_, ?_⟩
      · intro _ c2 hc2 hguid2
        obtain ⟨c2, hmem, rfl⟩ := List.mem_map.mp hc2
        have hsame : c2 = c := List.inj_on_of_nodup_map hdistinct hmem hc (hguid2.trans hguid.symm)
        rw [hsame]
        rfl
      · intro hother
        rcases hother with hother | hother
        · exact absurd henum hother
        · exact absurd hguid (hlisted.mp hother c hc)
  · rw [if_neg henum]
    exact ⟨by simp, fun h ↦ absurd h henum, fun _ ↦ rfl⟩

/-- The place of the class with a guid. -/
theorem findIdx_guid {j : ℕ} {c : ClassDescriptor} (hdistinct : (classes.map ClassDescriptor.guid).Nodup)
    (hj : classes[j]? = some c) : (classes.findIdx? fun c2 ↦ c2.guid = c.guid) = some j := by
  obtain ⟨hlt, rfl⟩ := List.getElem?_eq_some_iff.mp hj
  rw [List.findIdx?_eq_some_iff_getElem]
  refine ⟨hlt, decide_eq_true rfl, ?_⟩
  intro i hi
  have hne : (classes.map ClassDescriptor.guid)[i]? ≠ (classes.map ClassDescriptor.guid)[j]? :=
    List.nodup_iff_getElem?_ne_getElem?.mp hdistinct i j hi (by rwa [List.length_map])
  simpa [hlt, hi.trans hlt] using hne

theorem linkClass_linked (hdistinct : (classes.map ClassDescriptor.guid).Nodup) {parsed c : ClassDescriptor}
    (hparsed : parsed.parentIndex = -1) (hc : c = { parsed with isContentClass := c.isContentClass }) :
    ClassLinked (classes.map (linkClass classes)) parsed (linkClass classes c) := by
  have hguid : c.parentGuid = parsed.parentGuid := by rw [hc]
  have hindex : c.parentIndex = -1 := by rw [hc, hparsed]
  have hfields : c.fields = parsed.fields := by rw [hc]
  refine ⟨?_, ?_, ?_, ?_⟩
  · rw [hc]
    rfl
  · intro hparent j c2 hj hc2
    rw [List.getElem?_map, Option.map_eq_some_iff] at hj
    obtain ⟨c2, hj, rfl⟩ := hj
    rw [linkClass_guid] at hc2
    have hlength : c.parentGuid.length ≠ 0 := by rwa [hguid, Ne, List.length_eq_zero_iff]
    have hplace := findIdx_guid hdistinct hj
    rw [hc2, ← hguid] at hplace
    simp only [linkClass, if_pos hlength, hplace]
  · intro hnone
    have hnone : c.parentGuid.length = 0 ∨ (classes.findIdx? fun c2 ↦ c2.guid = c.parentGuid) = none := by
      refine hnone.imp (fun h ↦ by rw [hguid, h, List.length_nil]) fun h ↦ ?_
      rw [List.findIdx?_eq_none_iff, hguid]
      simpa using h
    rcases hnone with hnone | hnone
    · simp only [linkClass, hnone, ne_eq, not_true_eq_false, if_false, hindex]
    · simp only [linkClass, hnone, hindex, ite_self]
  · rw [← hfields]
    have hmap : (linkClass classes c).fields = c.fields.map (linkField classes) := rfl
    rw [hmap, List.forall₂_map_right_iff, List.forall₂_same]
    exact fun field _ ↦ linkField_linked hdistinct field

end

/-! ## The classes are ordered -/

section

variable {child : XMLElement} {parseFields : Bool}

/-- A class as an element gives it, before it is moved and linked. -/
structure Fresh (child : XMLElement) (c : ClassDescriptor) : Prop where
  guid_eq : child.getText (text "guid") = some c.guid
  isContentClass_eq : c.isContentClass = false
  parentIndex_eq : c.parentIndex = -1

theorem fromXML_cases {result : Option ClassDescriptor} (h : fromXML child parseFields = .ok result) :
    (result = none ∧ child.getText (text "guid") = none) ∨ ∃ c, result = some c ∧ Fresh child c := by
  unfold fromXML at h
  split at h
  next hguid => exact .inl ⟨by simpa using h.symm, hguid⟩
  next guid hguid =>
    refine .inr ?_
    simp only [bind, Except.bind, pure, Except.pure, throw, throwThe, MonadExceptOf.throw] at h
    split at h
    next => cases h
    next =>
      split at h
      next =>
        split at h
        next => cases h
        next =>
          obtain rfl := Except.ok.inj h
          exact ⟨_, rfl, hguid, rfl, rfl⟩
      next =>
        split at h
        next =>
          split at h
          next =>
            split at h
            next => cases h
            next =>
              obtain rfl := Except.ok.inj h
              exact ⟨_, rfl, hguid, rfl, rfl⟩
          next =>
            obtain rfl := Except.ok.inj h
            exact ⟨_, rfl, hguid, rfl, rfl⟩
        next => cases h

theorem fromXML_fresh {c : ClassDescriptor} (h : fromXML child parseFields = .ok (some c)) : Fresh child c := by
  obtain ⟨hnone, -⟩ | ⟨c', hc, hfresh⟩ := fromXML_cases h
  · cases hnone
  · rwa [Option.some.inj hc]

theorem Parsed.guids {children : List XMLElement} {parsed : List ClassDescriptor}
    (h : Parsed parseFields children parsed) : parsed.map ClassDescriptor.guid = children.map guidOf := by
  induction h with
  | nil => rfl
  | cons hchild _ ih =>
    have hguid := (fromXML_fresh hchild).guid_eq
    rw [List.map_cons, List.map_cons, ih, guidOf, hguid, Option.getD_some]

theorem Parsed.fresh {children : List XMLElement} {parsed : List ClassDescriptor}
    (h : Parsed parseFields children parsed) {c : ClassDescriptor} (hc : c ∈ parsed) :
    c.isContentClass = false ∧ c.parentIndex = -1 := by
  induction h with
  | nil => cases hc
  | cons hchild _ ih =>
    rcases List.mem_cons.mp hc with rfl | hc
    · exact ⟨(fromXML_fresh hchild).isContentClass_eq, (fromXML_fresh hchild).parentIndex_eq⟩
    · exact ih hc

/-- The loop returns true, with a descriptor for each element that has a guid. -/
theorem parseClasses_parsed {children : List XMLElement} {classes classes' : List ClassDescriptor} {returned : Bool}
    (h : parseClasses parseFields children classes = .ok (returned, classes')) :
    returned = true ∧ ∃ parsed, classes' = classes ++ parsed ∧
      Parsed parseFields (children.filter fun child ↦ (child.getText (text "guid")).isSome) parsed := by
  induction children generalizing classes with
  | nil =>
    obtain ⟨rfl, rfl⟩ := Prod.mk.inj (Except.ok.inj h)
    exact ⟨rfl, [], (List.append_nil _).symm, .nil⟩
  | cons child children ih =>
    rw [parseClasses] at h
    by_cases hguid : (child.getText (text "guid")).isNone = true
    · rw [if_pos hguid] at h
      have hskip : (child.getText (text "guid")).isSome = false := by
        rw [Option.isNone_iff_eq_none] at hguid
        rw [hguid, Option.isSome_none]
      rw [List.filter_cons, hskip]
      exact ih h
    · rw [if_neg hguid] at h
      have hkeep : (child.getText (text "guid")).isSome = true := by
        rwa [← Option.not_isNone, Bool.not_eq_true', ← Bool.not_eq_true]
      cases hchild : fromXML child parseFields with
      | error e =>
        rw [hchild] at h
        cases h
      | ok result =>
        rw [hchild] at h
        obtain ⟨rfl, hnone⟩ | ⟨c, rfl, -⟩ := fromXML_cases hchild
        · rw [hnone] at hkeep
          cases hkeep
        · obtain ⟨hreturned, parsed, hclasses, hparsed⟩ := ih h
          refine ⟨hreturned, c :: parsed, ?_, ?_⟩
          · rw [hclasses, List.append_assoc, List.singleton_append]
          · rw [List.filter_cons, if_pos hkeep]
            exact .cons hchild hparsed

variable {root : XMLElement} {parsed : List ClassDescriptor}

/-- The elements that the loop over the class descriptors does not skip. -/
def visited (root : XMLElement) : List XMLElement :=
  (root.elementsFrom (text "classDescriptor")).filter fun child ↦ (child.getText (text "guid")).isSome

/-- The loop meets all elements of the name. -/
theorem elementsFrom_filter (root : XMLElement) (name : Text) :
    ((root.elementsFrom name).filter fun child ↦ child.name = name) =
      root.children.filter fun child ↦ child.name = name := by
  have hbefore : ((root.children.takeWhile fun child ↦ child.name ≠ name).filter fun child ↦ child.name = name) =
      [] := by
    rw [List.filter_eq_nil_iff]
    intro child hchild
    simpa using List.mem_takeWhile_imp hchild
  calc
    ((root.elementsFrom name).filter fun child ↦ child.name = name) =
        ((root.children.takeWhile fun child ↦ child.name ≠ name) ++ root.elementsFrom name).filter
          (fun child ↦ child.name = name) := by rw [List.filter_append, hbefore, List.nil_append]
    _ = root.children.filter fun child ↦ child.name = name := by
      rw [XMLElement.elementsFrom, List.takeWhile_append_dropWhile]

theorem classDescriptors_eq (root : XMLElement) :
    classDescriptors root = (visited root).filter fun child ↦ child.name = text "classDescriptor" := by
  calc
    classDescriptors root = (root.children.filter fun child ↦ child.name = text "classDescriptor").filter
        (fun child ↦ (child.getText (text "guid")).isSome) := by
      rw [List.filter_filter, classDescriptors]
      simp only [Bool.decide_and, Bool.decide_eq_true, Bool.and_comm]
    _ = (visited root).filter fun child ↦ child.name = text "classDescriptor" := by
      rw [← elementsFrom_filter, visited, List.filter_filter, List.filter_filter]
      simp only [Bool.and_comm]

theorem classDescriptors_eq_visited_iff (root : XMLElement) :
    classDescriptors root = visited root ↔ ∀ child ∈ root.elementsFrom (text "classDescriptor"),
      child.name ≠ text "classDescriptor" → child.getText (text "guid") = none := by
  rw [classDescriptors_eq, List.filter_eq_self, visited]
  simp only [List.mem_filter, decide_eq_true_eq, Option.isSome_iff_ne_none, and_imp]
  exact forall₂_congr fun child _ ↦ not_imp_comm

/-- The ids that the loop over the content classes sees. -/
def visitedIds (root : XMLElement) : List Text :=
  (root.elementsFrom (text "contentClassId")).filterMap XMLElement.text

/-- The list that the classes come to, once they are moved and linked. -/
structure Moved (root : XMLElement) (parsed classes content others : List ClassDescriptor) : Prop where
  eq_append : classes = content ++ others
  linked : ∃ ordered : List ClassDescriptor, ordered.Perm parsed ∧ List.Forall₂ (ClassLinked classes) ordered classes
  marked : ∀ c ∈ content, c.isContentClass = true
  unmarked : ∀ c ∈ others, c.isContentClass = false
  guids_eq : content.map ClassDescriptor.guid =
    Selection.firstAppearances (parsed.map ClassDescriptor.guid) (visitedIds root)
  others_guid : ∀ c ∈ others, c.guid ∈ parsed.map ClassDescriptor.guid ∧ c.guid ∉ visitedIds root

/-- The classes of a part of the list, before and after they are linked. -/
theorem part_linked {moved part : List ClassDescriptor} {f : ClassDescriptor → ClassDescriptor}
    (hdistinct : (moved.map ClassDescriptor.guid).Nodup) (hpart : ∀ c ∈ part, c.parentIndex = -1)
    (hf : ∀ c, f c = { c with isContentClass := (f c).isContentClass }) :
    List.Forall₂ (ClassLinked (moved.map (linkClass moved))) part ((part.map f).map (linkClass moved)) := by
  rw [List.forall₂_map_right_iff, List.forall₂_map_right_iff, List.forall₂_same]
  exact fun c hc ↦ linkClass_linked hdistinct (hpart c hc) (hf c)

theorem moved_linked {children : List XMLElement} (hparsed : Parsed parseFields children parsed)
    (hdistinct : (parsed.map ClassDescriptor.guid).Nodup) (root : XMLElement) :
    ∃ content others, Moved root parsed
      ((moveContentClasses root parsed).map (linkClass (moveContentClasses root parsed))) content others := by
  obtain ⟨front, rest, hselected⟩ :=
    @Selection.selectAll_spec _ _ _ ClassDescriptor.guid markContentClass parsed hdistinct (visitedIds root)
  have hmoved : moveContentClasses root parsed = front.map markContentClass ++ rest :=
    congrArg Prod.snd hselected.state_eq
  have hmovedDistinct : ((front.map markContentClass ++ rest).map ClassDescriptor.guid).Nodup := by
    have hguids : (front.map markContentClass ++ rest).map ClassDescriptor.guid =
        (front ++ rest).map ClassDescriptor.guid := by
      rw [List.map_append, List.map_append, List.map_map]
      rfl
    rw [hguids]
    exact (hselected.perm.map ClassDescriptor.guid).nodup_iff.mpr hdistinct
  have hfresh (c : ClassDescriptor) (hc : c ∈ front ++ rest) : c.isContentClass = false ∧ c.parentIndex = -1 :=
    hparsed.fresh (hselected.perm.subset hc)
  rw [hmoved]
  refine ⟨(front.map markContentClass).map (linkClass (front.map markContentClass ++ rest)),
    rest.map (linkClass (front.map markContentClass ++ rest)), List.map_append,
    ⟨front ++ rest, hselected.perm, ?_⟩, ?_, ?_, ?_, ?_⟩
  · have hfront := part_linked (f := markContentClass) hmovedDistinct
      (fun c hc ↦ (hfresh c (List.mem_append_left rest hc)).2) fun _ ↦ rfl
    have hrest := part_linked (f := id) hmovedDistinct
      (fun c hc ↦ (hfresh c (List.mem_append_right front hc)).2) fun _ ↦ rfl
    rw [List.map_id] at hrest
    have happend := List.rel_append hfront hrest
    beta_reduce at happend
    rwa [← List.map_append] at happend
  · simp only [List.map_map, List.mem_map, Function.comp_apply, forall_exists_index, and_imp,
      forall_apply_eq_imp_iff₂]
    exact fun _ _ ↦ rfl
  · simp only [List.mem_map, forall_exists_index, and_imp, forall_apply_eq_imp_iff₂]
    exact fun c hc ↦ (hfresh c (List.mem_append_right _ hc)).1
  · rw [guids_linked, List.map_map]
    exact hselected.keys_eq
  · simp only [List.mem_map, forall_exists_index, and_imp, forall_apply_eq_imp_iff₂, linkClass_guid]
    intro c hc
    exact ⟨⟨c, hselected.perm.subset (List.mem_append_right _ hc), rfl⟩, hselected.rest_key c hc⟩

theorem filter_content {classes content others : List ClassDescriptor} (happend : classes = content ++ others)
    (hmarked : ∀ c ∈ content, c.isContentClass = true) (hunmarked : ∀ c ∈ others, c.isContentClass = false) :
    classes.filter ClassDescriptor.isContentClass = content := by
  have hothers : others.filter ClassDescriptor.isContentClass = [] := by
    rw [List.filter_eq_nil_iff]
    intro c hc
    rw [hunmarked c hc]
    exact Bool.false_ne_true
  rw [happend, List.filter_append, List.filter_eq_self.mpr hmarked, hothers, List.append_nil]

/-- A listed class is marked when its id is among those that the marked classes stand for. -/
theorem Moved.content_iff {classes content others : List ClassDescriptor} {ids : List Text}
    (h : Moved root parsed classes content others)
    (hids : Selection.firstAppearances (parsed.map ClassDescriptor.guid) (visitedIds root) =
      Selection.firstAppearances (parsed.map ClassDescriptor.guid) ids) {c : ClassDescriptor} (hc : c ∈ classes) :
    c.isContentClass = true ↔ c.guid ∈ ids := by
  rw [h.eq_append, List.mem_append] at hc
  rcases hc with hc | hc
  · have hguid : c.guid ∈ content.map ClassDescriptor.guid := List.mem_map_of_mem hc
    rw [h.guids_eq, hids, Selection.mem_firstAppearances] at hguid
    exact iff_of_true (h.marked c hc) hguid.2
  · have hguid : c.guid ∉ ids := by
      intro hmem
      have hfirst : c.guid ∈ Selection.firstAppearances (parsed.map ClassDescriptor.guid) ids :=
        Selection.mem_firstAppearances.mpr ⟨(h.others_guid c hc).1, hmem⟩
      rw [← hids, Selection.mem_firstAppearances] at hfirst
      exact (h.others_guid c hc).2 hfirst.2
    rw [h.unmarked c hc]
    exact iff_of_false Bool.false_ne_true hguid

theorem parseDescriptors_parsed {returned : Bool} {classes : List ClassDescriptor}
    (h : parseDescriptors [] (some root) parseFields = .ok (returned, classes)) :
    returned = true ∧ ∃ parsed, Parsed parseFields (visited root) parsed ∧
      classes = (moveContentClasses root parsed).map (linkClass (moveContentClasses root parsed)) := by
  rw [parseDescriptors] at h
  cases hloop : parseClasses parseFields (root.elementsFrom (text "classDescriptor")) [] with
  | error e =>
    rw [hloop] at h
    cases h
  | ok result =>
    obtain ⟨returned', parsed⟩ := result
    obtain ⟨rfl, parsed, rfl, hparsed⟩ := parseClasses_parsed hloop
    rw [hloop] at h
    obtain ⟨rfl, rfl⟩ := Prod.mk.inj (Except.ok.inj h)
    exact ⟨rfl, parsed, hparsed, rfl⟩

/-- A list that has as many classes as there are class descriptors comes from them alone. -/
theorem classDescriptors_eq_visited {classes : List ClassDescriptor} (hparsed : Parsed parseFields (visited root) parsed)
    (hclasses : classes = (moveContentClasses root parsed).map (linkClass (moveContentClasses root parsed)))
    (hread : SchemaRead root parseFields classes) : classDescriptors root = visited root := by
  obtain ⟨parsed', ordered, hparsed', hperm, hlinked⟩ := hread.linked
  have hsublist : (classDescriptors root).Sublist (visited root) := by
    rw [classDescriptors_eq]
    exact List.filter_sublist
  refine hsublist.eq_of_length ?_
  calc
    (classDescriptors root).length = parsed'.length := hparsed'.length_eq
    _ = ordered.length := hperm.length_eq.symm
    _ = classes.length := hlinked.length_eq
    _ = parsed.length := by rw [hclasses, List.length_map, moveContentClasses, Selection.selectAll_length]
    _ = (visited root).length := hparsed.length_eq.symm

/-- The classes of a schema are ordered and linked as its elements say if and only if the elements that its loops
meet under another name do not count. -/
theorem schemaRead_iff {returned : Bool} {classes : List ClassDescriptor}
    (h : parseDescriptors [] (some root) parseFields = .ok (returned, classes))
    (hdistinct : ((classDescriptors root).map guidOf).Nodup) :
    SchemaRead root parseFields classes ↔ ReadByName root := by
  obtain ⟨-, parsed, hparsed, hclasses⟩ := parseDescriptors_parsed h
  constructor
  · intro hread
    have hvisited := classDescriptors_eq_visited hparsed hclasses hread
    have hguids : parsed.map ClassDescriptor.guid = (classDescriptors root).map guidOf := by
      rw [hvisited, hparsed.guids]
    obtain ⟨content, others, hmoved⟩ := moved_linked hparsed (hguids ▸ hdistinct) root
    rw [← hclasses] at hmoved
    obtain ⟨content', others', happend, hmarked, hunmarked, hfirst⟩ := hread.content_first
    have hcontent : content = content' := by
      rw [← filter_content hmoved.eq_append hmoved.marked hmoved.unmarked, filter_content happend hmarked hunmarked]
    refine ⟨(classDescriptors_eq_visited_iff root).mp hvisited, ?_⟩
    calc
      Selection.firstAppearances ((classDescriptors root).map guidOf) (visitedIds root) =
          content.map ClassDescriptor.guid := by rw [hmoved.guids_eq, hguids]
      _ = Selection.firstAppearances ((classDescriptors root).map guidOf) (contentClassIds root) := by
        rw [hcontent, hfirst]
  · intro hname
    have hvisited := (classDescriptors_eq_visited_iff root).mpr hname.no_guid
    have hguids : parsed.map ClassDescriptor.guid = (classDescriptors root).map guidOf := by
      rw [hvisited, hparsed.guids]
    obtain ⟨content, others, hmoved⟩ := moved_linked hparsed (hguids ▸ hdistinct) root
    rw [← hclasses] at hmoved
    obtain ⟨ordered, hperm, hlinked⟩ := hmoved.linked
    have hids : Selection.firstAppearances (parsed.map ClassDescriptor.guid) (visitedIds root) =
        Selection.firstAppearances (parsed.map ClassDescriptor.guid) (contentClassIds root) := by
      rw [hguids]
      exact hname.same_ids
    refine ⟨⟨parsed, ordered, hvisited ▸ hparsed, hperm, hlinked⟩, fun c hc ↦ hmoved.content_iff hids hc, ?_⟩
    refine ⟨content, others, hmoved.eq_append, hmoved.marked, hmoved.unmarked, ?_⟩
    rw [hmoved.guids_eq, hids, hguids]

end

/-- Among class descriptors and ids alone the loops meet no other element. -/
theorem readByName_of_schema {root : XMLElement}
    (hschema : ∀ child ∈ root.children, (child.name = text "classDescriptor" ∧ child.text = none) ∨
      (child.name = text "contentClassId" ∧ child.getText (text "guid") = none)) : ReadByName root := by
  have hin (name : Text) (child : XMLElement) (hchild : child ∈ root.elementsFrom name) : child ∈ root.children :=
    (List.dropWhile_sublist _).subset hchild
  refine ⟨?_, ?_⟩
  · intro child hchild hname
    rcases hschema child (hin _ child hchild) with hclass | hid
    · exact absurd hclass.1 hname
    · exact hid.2
  · have hids : (root.elementsFrom (text "contentClassId")).filterMap XMLElement.text =
        ((root.elementsFrom (text "contentClassId")).filter fun child ↦ child.name = text "contentClassId").filterMap
          XMLElement.text := by
      rw [List.filterMap_filter]
      refine List.filterMap_congr fun child hchild ↦ ?_
      rcases hschema child (hin _ child hchild) with hclass | hid
      · rw [hclass.2, ite_self]
      · rw [if_pos (decide_eq_true hid.1)]
    rw [hids, elementsFrom_filter]
    rfl

/-! ## Two schemas -/

def textElement (name content : String) : XMLElement := .mk (text name) [] (some (text content)) []

/-- A record class with nothing but its guid. -/
def recordClass (guid : String) : XMLElement :=
  .mk (text "classDescriptor") [(text "xsi:type", text "recordClass")] none [textElement "guid" guid]

/-- The descriptor of such a class. -/
def recordDescriptor (guid : String) (isContentClass : Bool) : ClassDescriptor :=
  ⟨[], text guid, [], FieldType.UNKNOWN, ∅, [], isContentClass, [], -1⟩

/-- The second of two classes is the content class. -/
def secondContent : XMLElement :=
  .mk (text "classSet") [] none [recordClass "A", recordClass "B", textElement "contentClassId" "B"]

theorem schemaRead_second :
    SchemaRead secondContent true [recordDescriptor "B" true, recordDescriptor "A" false] ↔
      ReadByName secondContent :=
  @schemaRead_iff true secondContent true _ rfl (by decide)

/-- An element with another name stands behind the only id. -/
def strangeElement : XMLElement :=
  .mk (text "classSet") [] none
    [recordClass "A", textElement "contentClassId" "B", textElement "comment" "A"]

/-- A class is marked although no id refers to it. -/
theorem strangeElement_marks :
    ((classDescriptors strangeElement).map guidOf).Nodup ∧
      parseDescriptors [] (some strangeElement) true = .ok (true, [recordDescriptor "A" true]) ∧
        text "A" ∉ contentClassIds strangeElement ∧
          ¬ SchemaRead strangeElement true [recordDescriptor "A" true] := by
  have hmissing : text "A" ∉ contentClassIds strangeElement := by decide
  refine ⟨by decide, rfl, hmissing, ?_⟩
  intro hread
  exact hmissing ((hread.content_iff _ List.mem_cons_self).mp rfl)

end DxApi.Xml
