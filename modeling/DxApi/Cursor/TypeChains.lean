import DxApi.Cursor.Filter
import Mathlib.Data.List.Perm.Subperm

/-!
# The tables of message types

Descriptors with the same type name are chained from the last one that was registered down to the
first, and `typeList` has one of each chain. `clear` empties the index and the descriptors but leaves
`typeList` as it is, with pointers to descriptors that are no more.
-/

namespace DxApi.Cursor

open Exec

/-! ## The source -/

/-- A descriptor that was made with `new`. -/
structure Allocated where
  pointer : ℕ
  descriptor : MessageDescriptor
  deriving DecidableEq, Repr

/-- The data members of `SymbolTranslator` for message types; `typeList` has pointers. -/
structure TypeTables where
  allocated : ℕ
  messageDescriptors : List Allocated
  typeList : List ℕ
  typeIndex : Name → Option ℕ

/-- Why `registerMessageDescriptor` throws. -/
inductive TableError
  | tooBig (msgDescId : ℕ)
  | invalidOrder (msgDescId expected : ℕ)
  /-- `std::out_of_range` of a static array. -/
  | outOfRange
  deriving DecidableEq, Repr

abbrev TablesM (α : Type) := EStateM TableError TypeTables α

namespace TypeTables

def empty : TypeTables := ⟨0, [], [], fun _ ↦ none⟩

/-- `registerMessageDescriptor`. -/
def registerMessageDescriptor (msgDescId : ℕ) (typeName guid : Name) : TablesM Unit := do
  let t ← get
  if 0x100 ≤ msgDescId then
    throw (.tooBig msgDescId)
  else if msgDescId ≠ t.messageDescriptors.length then
    throw (.invalidOrder msgDescId t.messageDescriptors.length)
  else
    let previous := t.typeIndex typeName
    set { t with
      allocated := t.allocated + 1
      messageDescriptors := t.messageDescriptors ++
        [Allocated.mk t.allocated ⟨previous.getD emptyMsgTypeId, typeName, guid⟩]
      typeIndex := Function.update t.typeIndex typeName (some msgDescId) }
    if previous = none then
      if t.typeList.length < 0x100 then
        modify fun t' ↦ { t' with typeList := t'.typeList ++ [t.allocated] }
      else
        throw .outOfRange

/-- `clear`, which does not mention `typeList`. -/
def clear : TablesM Unit := modify fun t ↦ { t with messageDescriptors := [], typeIndex := fun _ ↦ none }

end TypeTables

inductive TableStep
  | register (msgDescId : ℕ) (typeName guid : Name)
  | clear

/-- A call, from which an exception may come. -/
def TableStep.run (t : TypeTables) : TableStep → TypeTables
  | .register msgDescId typeName guid => finalState (TypeTables.registerMessageDescriptor msgDescId typeName guid) t
  | .clear => finalState TypeTables.clear t

def runTables (steps : List TableStep) (t : TypeTables) : TypeTables := steps.foldl TableStep.run t

/-- The names by number, as the calls since the last `clear` say. -/
def TableStep.names (names : List Name) : TableStep → List Name
  | .register msgDescId typeName _ =>
    if msgDescId < 0x100 ∧ msgDescId = names.length then names ++ [typeName] else names
  | .clear => []

def registeredNames (steps : List TableStep) (names : List Name) : List Name := steps.foldl TableStep.names names

/-! ## Chains -/

/-- The numbers that are visited from `index` on, up to `EMPTY_MSG_TYPE_ID`; nothing when `fuel` steps
do not get there. -/
def typeChain (descriptors : List MessageDescriptor) : ℕ → ℕ → Option (List ℕ)
  | 0, index => if index = emptyMsgTypeId then some [] else none
  | fuel + 1, index =>
    if index = emptyMsgTypeId then some []
    else
      match descriptors[index]? with
      | some descriptor => (typeChain descriptors fuel descriptor.nextSameType).map (index :: ·)
      | none => none

/-- The numbers below `bound` that have the name. -/
def idsOfType (name : Name) (names : List Name) (bound : ℕ) : List ℕ :=
  (List.range bound).filter fun id ↦ names[id]? = some name

section

variable {name : Name} {names : List Name}

theorem idsOfType_succ (bound : ℕ) :
    idsOfType name names (bound + 1) =
      idsOfType name names bound ++ if names[bound]? = some name then [bound] else [] := by
  rw [idsOfType, idsOfType, List.range_succ, List.filter_append]
  congr 1
  by_cases hname : names[bound]? = some name <;> simp [hname]

/-- Nothing after `id` has the name. -/
theorem idsOfType_last {id count : ℕ} (hid : names[id]? = some name)
    (hlater : ∀ i, id < i → i < id + 1 + count → names[i]? ≠ some name) :
    idsOfType name names (id + 1 + count) = idsOfType name names id ++ [id] := by
  induction count with
  | zero => rw [Nat.add_zero, idsOfType_succ, if_pos hid]
  | succ count ih =>
    have hnot := hlater (id + 1 + count) (by omega) (by omega)
    rw [← Nat.add_assoc, idsOfType_succ, if_neg hnot, List.append_nil]
    exact ih fun i hi hlt ↦ hlater i hi (by omega)

variable {tables : SymbolTranslator}

/-- The names of the descriptors. -/
def SymbolTranslator.typeNames (tables : SymbolTranslator) : List Name :=
  tables.messageDescriptors.map MessageDescriptor.typeName

theorem typeNames_eq (tables : SymbolTranslator) (id : ℕ) : tables.typeNames[id]? = tables.typeName id := by
  rw [SymbolTranslator.typeNames, List.getElem?_map]
  rfl

/-- The chain from the last descriptor below `bound` visits all of them that have the name. -/
theorem typeChain_spec (name : Name) {bound fuel : ℕ} (hbound : bound ≤ tables.messageDescriptors.length)
    (hfuel : bound ≤ fuel) :
    typeChain tables.messageDescriptors fuel
        ((lastOfType name (tables.messageDescriptors.take bound)).getD emptyMsgTypeId) =
      some (idsOfType name tables.typeNames bound).reverse := by
  induction bound using Nat.strongRecOn generalizing fuel with
  | ind bound ih =>
    cases hlast : lastOfType name (tables.messageDescriptors.take bound) with
    | none =>
      have hnone : idsOfType name tables.typeNames bound = [] := by
        rw [idsOfType, List.filter_eq_nil_iff]
        intro i hi
        rw [List.mem_range] at hi
        rw [decide_eq_true_iff, typeNames_eq]
        intro htype
        obtain ⟨descriptor, hget, hname⟩ := Option.map_eq_some_iff.mp htype
        rw [← List.getElem?_take_of_lt hi] at hget
        exact lastOfType_eq_none hlast hget hname
      rw [hnone]
      cases fuel <;> rfl
    | some id =>
      have hid : id < bound := by
        have hlt := lastOfType_lt hlast
        rw [List.length_take] at hlt
        omega
      have htypes := tables.types_le
      have hsome : ¬ id = emptyMsgTypeId := by
        rw [emptyMsgTypeId]
        omega
      obtain ⟨descriptor, htaken, hname⟩ := lastOfType_eq_some hlast
      rw [List.getElem?_take_of_lt hid] at htaken
      obtain ⟨fuel, rfl⟩ : ∃ n, fuel = n + 1 := ⟨fuel - 1, by omega⟩
      have hnext := tables.nextSameType_eq id descriptor htaken
      rw [hname] at hnext
      have hself : tables.typeNames[id]? = some name := by
        rw [typeNames_eq, SymbolTranslator.typeName, htaken, Option.map_some, hname]
      have hlater : ∀ i, id < i → i < bound → tables.typeNames[i]? ≠ some name := by
        intro i hi hlt htype
        rw [typeNames_eq] at htype
        obtain ⟨other, hother, hothername⟩ := Option.map_eq_some_iff.mp htype
        rw [← List.getElem?_take_of_lt hlt] at hother
        obtain ⟨last, hlast', hle⟩ := le_lastOfType hother hothername
        rw [hlast] at hlast'
        cases hlast'
        omega
      obtain ⟨count, rfl⟩ : ∃ count, bound = id + 1 + count := ⟨bound - (id + 1), by omega⟩
      calc typeChain tables.messageDescriptors (fuel + 1) id
          = (typeChain tables.messageDescriptors fuel descriptor.nextSameType).map (id :: ·) := by
            rw [typeChain, if_neg hsome, htaken]
        _ = some (id :: (idsOfType name tables.typeNames id).reverse) := by
            rw [hnext, ih id hid (by omega) (by omega), Option.map_some]
        _ = some (idsOfType name tables.typeNames (id + 1 + count)).reverse := by
            rw [idsOfType_last hself hlater, List.reverse_append, List.reverse_singleton, List.singleton_append]

/-! ## The invariant of the tables -/

/-- The tables are those of a `SymbolTranslator`. -/
structure Represents (t : TypeTables) (tables : SymbolTranslator) : Prop where
  descriptors_eq : tables.messageDescriptors = t.messageDescriptors.map Allocated.descriptor
  index_eq : tables.typeIndex = t.typeIndex

/-- The type name of the descriptor that a pointer is to. -/
def TypeTables.typeNameAt (t : TypeTables) (pointer : ℕ) : Option Name :=
  (t.messageDescriptors.find? (·.pointer == pointer)).map fun allocated ↦ allocated.descriptor.typeName

/-- What holds after any calls. -/
structure TablesInvariant (t : TypeTables) (names : List Name) : Prop where
  represents : ∃ tables, Represents t tables
  names_eq : t.messageDescriptors.map (fun allocated ↦ allocated.descriptor.typeName) = names
  descriptors_lt : ∀ allocated ∈ t.messageDescriptors, allocated.pointer < t.allocated
  typeList_lt : ∀ pointer ∈ t.typeList, pointer < t.allocated

/-- `typeList` has exactly one entry for each registered name. -/
def TypeListExact (t : TypeTables) (names : List Name) : Prop :=
  ∃ distinct : List Name, distinct.Nodup ∧ (∀ name, name ∈ distinct ↔ name ∈ names) ∧
    t.typeList.map t.typeNameAt = distinct.map some

/-- `typeList` has a pointer to a descriptor that is no more. -/
def HasStale (t : TypeTables) : Prop := ∃ pointer ∈ t.typeList, t.typeNameAt pointer = none

variable {t : TypeTables}

/-- What `registerMessageDescriptor` leaves. -/
theorem register_cases (msgDescId : ℕ) (typeName guid : Name) (t : TypeTables) :
    (¬ (msgDescId < 0x100 ∧ msgDescId = t.messageDescriptors.length) ∧
      TableStep.run t (.register msgDescId typeName guid) = t) ∨
    (msgDescId < 0x100 ∧ msgDescId = t.messageDescriptors.length ∧
      TableStep.run t (.register msgDescId typeName guid) =
        { allocated := t.allocated + 1
          messageDescriptors := t.messageDescriptors ++
            [⟨t.allocated, (t.typeIndex typeName).getD emptyMsgTypeId, typeName, guid⟩]
          typeList := t.typeList ++
            if t.typeIndex typeName = none ∧ t.typeList.length < 0x100 then [t.allocated] else []
          typeIndex := Function.update t.typeIndex typeName (some msgDescId) }) := by
  have hspec : wp (TypeTables.registerMessageDescriptor msgDescId typeName guid)
      (fun _ t' ↦ t' = TableStep.run t (.register msgDescId typeName guid))
      (fun _ t' ↦ t' = TableStep.run t (.register msgDescId typeName guid)) t := wp_finalState
  rw [TypeTables.registerMessageDescriptor, wp_bind, wp_get, wp_ite, wp_ite] at hspec
  obtain ⟨hbig, hspec⟩ := hspec
  by_cases hsize : 0x100 ≤ msgDescId
  · exact .inl ⟨by omega, (hbig hsize).symm⟩
  · obtain ⟨horder, hspec⟩ := hspec hsize
    by_cases hid : msgDescId = t.messageDescriptors.length
    · right
      refine ⟨by omega, hid, ?_⟩
      have hrun := hspec (not_not_intro hid)
      simp only [wp_bind, wp_set, wp_ite, wp_modify, wp_throw, wp_pure] at hrun
      obtain ⟨hnew, hknown⟩ := hrun
      by_cases hprevious : t.typeIndex typeName = none
      · obtain ⟨hroom, hfull⟩ := hnew hprevious
        by_cases hlength : t.typeList.length < 0x100
        · rw [if_pos ⟨hprevious, hlength⟩]
          exact (hroom hlength).symm
        · rw [if_neg fun h ↦ hlength h.2, List.append_nil]
          exact (hfull hlength).symm
      · rw [if_neg fun h ↦ hprevious h.1, List.append_nil]
        exact (hknown hprevious).symm
    · exact .inl ⟨fun hnot ↦ hid hnot.2, (horder hid).symm⟩

theorem represents_empty : Represents TypeTables.empty SymbolTranslator.empty := ⟨rfl, rfl⟩

/-- What is registered is what the type with the invariant registers. -/
theorem Represents.register {tables : SymbolTranslator} {typeName guid : Name} {typeList : List ℕ}
    (h : Represents t tables) (hfits : t.messageDescriptors.length < 0x100) :
    ∃ tables', Represents
      { allocated := t.allocated + 1
        messageDescriptors := t.messageDescriptors ++
          [⟨t.allocated, (t.typeIndex typeName).getD emptyMsgTypeId, typeName, guid⟩]
        typeList := typeList
        typeIndex := Function.update t.typeIndex typeName (some t.messageDescriptors.length) } tables' := by
  have hlength : tables.messageDescriptors.length = t.messageDescriptors.length := by
    rw [h.descriptors_eq, List.length_map]
  have hsome : (tables.registerMessageDescriptor typeName guid).isSome := by
    rw [SymbolTranslator.registerMessageDescriptor, dif_pos (hlength ▸ hfits)]
    rfl
  obtain ⟨tables', hregister⟩ := Option.isSome_iff_exists.mp hsome
  refine ⟨tables', ?_⟩
  rw [SymbolTranslator.registerMessageDescriptor, dif_pos (hlength ▸ hfits), Option.some.injEq] at hregister
  subst hregister
  have hfind : tables.findMsgDescByType typeName = t.typeIndex typeName := congrFun h.index_eq typeName
  constructor
  · dsimp only
    rw [hfind, h.descriptors_eq, List.map_append]
    rfl
  · dsimp only
    rw [h.index_eq, hlength]

/-- A name has an entry in the index exactly when it is registered. -/
theorem TablesInvariant.typeIndex_eq_none_iff {names : List Name} {name : Name} (h : TablesInvariant t names) :
    t.typeIndex name = none ↔ name ∉ names := by
  obtain ⟨tables, hrep⟩ := h.represents
  rw [← h.names_eq, ← hrep.index_eq]
  constructor
  · intro hnone hmem
    obtain ⟨allocated, hallocated, hname⟩ := List.mem_map.mp hmem
    obtain ⟨id, hid⟩ := List.getElem?_of_mem hallocated
    have htype : tables.typeName id = some name := by
      rw [SymbolTranslator.typeName, hrep.descriptors_eq, List.getElem?_map, hid, Option.map_some, Option.map_some,
        hname]
    exact findMsgDescByType_ne_none htype hnone
  · intro hnot
    cases hfind : tables.typeIndex name with
    | none => rfl
    | some id =>
      have htype := findMsgDescByType_eq_some hfind
      rw [SymbolTranslator.typeName, hrep.descriptors_eq, List.getElem?_map, Option.map_map] at htype
      obtain ⟨allocated, hget, hname⟩ := Option.map_eq_some_iff.mp htype
      exact absurd (List.mem_map.mpr ⟨allocated, List.mem_of_getElem? hget, hname⟩) hnot

theorem TablesInvariant.step {names : List Name} (h : TablesInvariant t names) (step : TableStep) :
    TablesInvariant (step.run t) (step.names names) := by
  have hlength : t.messageDescriptors.length = names.length := by rw [← h.names_eq, List.length_map]
  cases step with
  | clear => exact ⟨⟨SymbolTranslator.empty, ⟨rfl, rfl⟩⟩, rfl, fun _ hmem ↦ absurd hmem List.not_mem_nil, h.typeList_lt⟩
  | register msgDescId typeName guid =>
    rw [TableStep.names, ← hlength]
    rcases register_cases msgDescId typeName guid t with ⟨hrefused, hrun⟩ | ⟨hsize, hid, hrun⟩
    · rw [hrun, if_neg hrefused]
      exact h
    · have hnames : (if msgDescId < 0x100 ∧ msgDescId = t.messageDescriptors.length then names ++ [typeName]
          else names) = names ++ [typeName] := if_pos ⟨hsize, hid⟩
      rw [hrun, hnames]
      obtain ⟨tables, hrep⟩ := h.represents
      subst hid
      constructor
      · exact hrep.register hsize
      · rw [List.map_append, h.names_eq]
        rfl
      · intro allocated hmem
        rcases List.mem_append.mp hmem with hold | hnew
        · exact Nat.lt_succ_of_lt (h.descriptors_lt allocated hold)
        · rw [List.mem_singleton.mp hnew]
          exact Nat.lt_succ_self _
      · intro pointer hmem
        rcases List.mem_append.mp hmem with hold | hnew
        · exact Nat.lt_succ_of_lt (h.typeList_lt pointer hold)
        · split at hnew
          · rw [List.mem_singleton.mp hnew]
            exact Nat.lt_succ_self _
          · exact absurd hnew List.not_mem_nil

theorem tablesInvariant_empty : TablesInvariant TypeTables.empty [] :=
  ⟨⟨_, represents_empty⟩, rfl, fun _ hmem ↦ absurd hmem List.not_mem_nil,
    fun _ hmem ↦ absurd hmem List.not_mem_nil⟩

theorem TablesInvariant.run {names : List Name} (h : TablesInvariant t names) (steps : List TableStep) :
    TablesInvariant (runTables steps t) (registeredNames steps names) := by
  induction steps generalizing t names with
  | nil => exact h
  | cons step steps ih => exact ih (h.step step)

/-! ## Chains after any calls -/

/-- Every chain visits the numbers that were registered under its name, the last one first. -/
structure ChainsExact (t : TypeTables) (names : List Name) : Prop where
  known : ∀ name ∈ names, ∃ id, t.typeIndex name = some id ∧
    typeChain (t.messageDescriptors.map Allocated.descriptor) names.length id =
      some (idsOfType name names names.length).reverse
  unknown : ∀ name ∉ names, t.typeIndex name = none
  /-- `modifyFilterSet` sets exactly these. -/
  filtered : ∀ name id, t.typeIndex name = some id → ∀ (value : Bool) (fuel : ℕ) (filter : AbstractLUT Bool 0x100),
    names.length ≤ fuel → ∃ filter',
      modifyFilterSet (t.messageDescriptors.map Allocated.descriptor) value fuel id filter = some filter' ∧
        ∀ i, filter'.get i = if names[i]? = some name then value else filter.get i

theorem TablesInvariant.chainsExact {names : List Name} (h : TablesInvariant t names) : ChainsExact t names := by
  obtain ⟨tables, hrep⟩ := h.represents
  have hnames : tables.typeNames = names := by
    rw [SymbolTranslator.typeNames, hrep.descriptors_eq, List.map_map, ← h.names_eq]
    rfl
  have hlength : tables.messageDescriptors.length = names.length := by
    rw [← hnames, SymbolTranslator.typeNames, List.length_map]
  have hlast : ∀ name, t.typeIndex name =
      lastOfType name (tables.messageDescriptors.take names.length) := by
    intro name
    rw [← hlength, List.take_length, ← hrep.index_eq, tables.typeIndex_eq]
  constructor
  · intro name hmem
    obtain ⟨id, hid⟩ := Option.ne_none_iff_exists'.mp (mt h.typeIndex_eq_none_iff.mp (not_not_intro hmem))
    have hchain := @typeChain_spec tables name _ _ (Nat.le_of_eq hlength.symm) (Nat.le_refl names.length)
    rw [← hlast, hid, Option.getD_some, hnames, hrep.descriptors_eq] at hchain
    exact ⟨id, hid, hchain⟩
  · exact fun name ↦ h.typeIndex_eq_none_iff.mpr
  · intro name id hid value fuel filter hfuel
    obtain ⟨filter', hrun, -, -, hget⟩ := @modifyFilterSet_spec tables name value _ _
      (Nat.le_of_eq hlength.symm) hfuel filter
    rw [← hlast, hid, Option.getD_some, hrep.descriptors_eq] at hrun
    refine ⟨filter', hrun, fun i ↦ ?_⟩
    rw [hget i, ← typeNames_eq, hnames]
    congr 1
    apply propext
    constructor
    · exact And.right
    · exact fun htype ↦ ⟨(List.getElem?_eq_some_iff.mp htype).1, htype⟩

/-! ## The list of types -/

theorem typeNameAt_append {descriptor : MessageDescriptor} {typeList : List ℕ} {typeIndex : Name → Option ℕ}
    (pointer : ℕ) :
    TypeTables.typeNameAt ⟨t.allocated + 1, t.messageDescriptors ++ [⟨t.allocated, descriptor⟩], typeList,
        typeIndex⟩ pointer =
      (t.typeNameAt pointer).or (if t.allocated = pointer then some descriptor.typeName else none) := by
  rw [TypeTables.typeNameAt, TypeTables.typeNameAt, List.find?_append]
  cases hfind : t.messageDescriptors.find? (·.pointer == pointer) with
  | some allocated => rfl
  | none =>
    by_cases hpointer : t.allocated = pointer
    · simp [hpointer]
    · simp [hpointer]

/-- A pointer to no descriptor stays one. -/
theorem HasStale.step {names : List Name} (h : HasStale t) (hinv : TablesInvariant t names) (step : TableStep) :
    HasStale (step.run t) := by
  obtain ⟨pointer, hmem, hstale⟩ := h
  cases step with
  | clear => exact ⟨pointer, hmem, rfl⟩
  | register msgDescId typeName guid =>
    rcases register_cases msgDescId typeName guid t with ⟨-, hrun⟩ | ⟨-, -, hrun⟩
    · rw [hrun]
      exact ⟨pointer, hmem, hstale⟩
    · rw [hrun]
      refine ⟨pointer, List.mem_append_left _ hmem, ?_⟩
      have hne : ¬ t.allocated = pointer := by
        have hlt := hinv.typeList_lt pointer hmem
        omega
      rw [typeNameAt_append, hstale, if_neg hne]
      rfl

theorem HasStale.not_typeListExact {names : List Name} (h : HasStale t) : ¬ TypeListExact t names := by
  rintro ⟨distinct, -, -, hlist⟩
  obtain ⟨pointer, hmem, hstale⟩ := h
  have hnone : none ∈ distinct.map some := by
    rw [← hlist, ← hstale]
    exact List.mem_map_of_mem hmem
  obtain ⟨name, -, hname⟩ := List.mem_map.mp hnone
  cases hname

theorem TypeListExact.register {names : List Name} (h : TypeListExact t names) (hinv : TablesInvariant t names)
    (msgDescId : ℕ) (typeName guid : Name) :
    TypeListExact (TableStep.run t (.register msgDescId typeName guid))
      (TableStep.names names (.register msgDescId typeName guid)) := by
  have hlength : t.messageDescriptors.length = names.length := by rw [← hinv.names_eq, List.length_map]
  rw [TableStep.names, ← hlength]
  rcases register_cases msgDescId typeName guid t with ⟨hrefused, hrun⟩ | ⟨hsize, hid, hrun⟩
  · rw [hrun, if_neg hrefused]
    exact h
  · have hnames : (if msgDescId < 0x100 ∧ msgDescId = t.messageDescriptors.length then names ++ [typeName]
        else names) = names ++ [typeName] := if_pos ⟨hsize, hid⟩
    rw [hrun, hnames]
    obtain ⟨distinct, hnodup, hmem, hlist⟩ := h
    have hold : t.typeList.map (TypeTables.typeNameAt
        { allocated := t.allocated + 1
          messageDescriptors := t.messageDescriptors ++
            [⟨t.allocated, (t.typeIndex typeName).getD emptyMsgTypeId, typeName, guid⟩]
          typeList := t.typeList ++
            if t.typeIndex typeName = none ∧ t.typeList.length < 0x100 then [t.allocated] else []
          typeIndex := Function.update t.typeIndex typeName (some msgDescId) }) = distinct.map some := by
      rw [← hlist]
      apply List.map_congr_left
      intro pointer hpointer
      have hne : ¬ t.allocated = pointer := by
        have hlt := hinv.typeList_lt pointer hpointer
        omega
      rw [typeNameAt_append, if_neg hne, Option.or_none]
    by_cases hnew : t.typeIndex typeName = none
    · have hfresh : typeName ∉ names := hinv.typeIndex_eq_none_iff.mp hnew
      have hroom : t.typeList.length < 0x100 := by
        have hsub : distinct ⊆ names := fun name hname ↦ (hmem name).mp hname
        have hle := (hnodup.subperm hsub).length_le
        have hsame := congrArg List.length hlist
        rw [List.length_map, List.length_map] at hsame
        omega
      have hunused : t.typeNameAt t.allocated = none := by
        rw [TypeTables.typeNameAt, Option.map_eq_none_iff, List.find?_eq_none]
        intro allocated hallocated hsame
        have hlt := hinv.descriptors_lt allocated hallocated
        rw [eq_of_beq hsame] at hlt
        exact Nat.lt_irrefl _ hlt
      refine ⟨distinct ++ [typeName], ?_, ?_, ?_⟩
      · rw [List.nodup_append]
        refine ⟨hnodup, List.nodup_singleton _, fun a ha b hb hab ↦ ?_⟩
        rw [List.mem_singleton] at hb
        exact hfresh ((hmem typeName).mp (hb ▸ hab ▸ ha))
      · intro name
        rw [List.mem_append, List.mem_append, hmem]
      · rw [List.map_append, List.map_append, hold, if_pos ⟨hnew, hroom⟩, List.map_singleton, typeNameAt_append,
          hunused, if_pos rfl]
        rfl
    · have hknown : typeName ∈ names := not_not.mp (mt hinv.typeIndex_eq_none_iff.mpr hnew)
      refine ⟨distinct, hnodup, ?_, ?_⟩
      · intro name
        rw [hmem, List.mem_append, List.mem_singleton]
        exact ⟨.inl, fun h ↦ h.elim id fun hname ↦ hname ▸ hknown⟩
      · rw [List.map_append, hold, if_neg fun h ↦ hnew h.1, List.map_nil, List.append_nil]

theorem TypeListExact.clear {names : List Name} (h : TypeListExact t names) :
    (names = [] → TypeListExact (TableStep.clear.run t) []) ∧ (names ≠ [] → HasStale (TableStep.clear.run t)) := by
  obtain ⟨distinct, -, hmem, hlist⟩ := h
  constructor
  · intro hnames
    have hnone : distinct = [] := by
      rw [List.eq_nil_iff_forall_not_mem]
      intro name hname
      have hregistered := (hmem name).mp hname
      rw [hnames] at hregistered
      exact List.not_mem_nil hregistered
    rw [hnone, List.map_nil, List.map_eq_nil_iff] at hlist
    refine ⟨[], List.nodup_nil, fun _ ↦ Iff.rfl, ?_⟩
    have hkept : (TableStep.clear.run t).typeList = [] := hlist
    rw [hkept]
    rfl
  · intro hnames
    obtain ⟨name, hname⟩ := List.exists_mem_of_ne_nil names hnames
    have hsome : some name ∈ t.typeList.map t.typeNameAt := by
      rw [hlist]
      exact List.mem_map_of_mem ((hmem name).mpr hname)
    obtain ⟨pointer, hpointer, -⟩ := List.mem_map.mp hsome
    exact ⟨pointer, hpointer, rfl⟩

/-- Whenever `clear` is called nothing is registered. -/
def ClearedUnused : List TableStep → List Name → Prop
  | [], _ => True
  | .clear :: steps, names => names = [] ∧ ClearedUnused steps []
  | .register msgDescId typeName guid :: steps, names =>
    ClearedUnused steps (TableStep.names names (.register msgDescId typeName guid))

/-- The tables say what was registered since the last `clear`. -/
structure TablesExact (t : TypeTables) (names : List Name) : Prop where
  chains : ChainsExact t names
  typeList : TypeListExact t names

theorem HasStale.run {names : List Name} (h : HasStale t) (hinv : TablesInvariant t names)
    (steps : List TableStep) : HasStale (runTables steps t) := by
  induction steps generalizing t names with
  | nil => exact h
  | cons step steps ih => exact ih (h.step hinv step) (hinv.step step)

theorem typeListExact_run_iff {names : List Name} (h : TypeListExact t names) (hinv : TablesInvariant t names)
    (steps : List TableStep) :
    TypeListExact (runTables steps t) (registeredNames steps names) ↔ ClearedUnused steps names := by
  induction steps generalizing t names with
  | nil => exact ⟨fun _ ↦ trivial, fun _ ↦ h⟩
  | cons step steps ih =>
    have hnext := hinv.step step
    cases step with
    | register msgDescId typeName guid => exact ih (h.register hinv msgDescId typeName guid) hnext
    | clear =>
      obtain ⟨hunused, hused⟩ := h.clear
      by_cases hnames : names = []
      · rw [ClearedUnused, and_iff_right hnames]
        exact ih (hunused hnames) hnext
      · have hstale := (hused hnames).run hnext steps
        exact ⟨fun hexact ↦ absurd hexact hstale.not_typeListExact, fun hcleared ↦ absurd hcleared.1 hnames⟩

/-- After any calls the tables are exact if and only if nothing was ever registered when `clear` was
called; the chains are exact in any case. -/
theorem tablesExact_iff (steps : List TableStep) :
    TablesExact (runTables steps .empty) (registeredNames steps []) ↔ ClearedUnused steps [] := by
  have hempty : TypeListExact .empty [] := ⟨[], List.nodup_nil, fun _ ↦ Iff.rfl, rfl⟩
  have hlist := typeListExact_run_iff hempty tablesInvariant_empty steps
  constructor
  · exact fun hexact ↦ hlist.mp hexact.typeList
  · exact fun hcleared ↦ ⟨(tablesInvariant_empty.run steps).chainsExact, hlist.mpr hcleared⟩

/-- Two types, one before `clear` and one after it: the list still has both. -/
theorem typeList_keeps_cleared :
    ¬ ∀ steps : List TableStep, TablesExact (runTables steps .empty) (registeredNames steps []) := by
  intro hall
  have hexact := hall [.register 0 [65] [], .clear, .register 0 [66] []]
  have hstale : HasStale (runTables [.register 0 [65] [], .clear, .register 0 [66] []] .empty) :=
    ⟨0, by decide +kernel, by decide +kernel⟩
  exact hstale.not_typeListExact hexact.typeList

end

end DxApi.Cursor
