import DxApi.Cursor.TickCursor

/-!
# The filter of a subscription

What a client asked of a name decides whether the messages of that name are skipped. The cursor keeps
the answer in two places: by number for names that the server has registered, by name for the others,
and with a default value for names that nobody mentioned. The filter is right if looking it up gives
what the calls of the client say, replayed on the name alone.

An entry for a name that is not registered is overwritten, but never taken back: a call that asks for
the default value leaves it.
-/

namespace DxApi.Cursor

open Exec

/-! ## What the calls say -/

/-- A call of `modifyEntities` or `modifyTypes`. -/
structure Change where
  names : Option (List Name)
  action : SubscrChangeAction
  deriving DecidableEq, Repr

/-- Whether the name is skipped after the call, if it was skipped or not before. -/
def Change.skips (change : Change) (name : Name) (before : Bool) : Bool :=
  match change.names with
  | none => change.action ≠ .add
  | some names =>
    if names.contains name then change.action = .remove
    else if change.action = .set then true
    else before

/-- Whether the name is skipped after all calls. -/
def replay (isSkippingAll : Bool) (changes : List Change) (name : Name) : Bool :=
  changes.foldl (fun before change ↦ change.skips name before) isSkippingAll

theorem replay_append (isSkippingAll : Bool) (changes : List Change) (change : Change) (name : Name) :
    replay isSkippingAll (changes ++ [change]) name =
      change.skips name (replay isSkippingAll changes name) := by
  simp [replay]

/-! ## What the filter says -/

/-- The filter says what `skips` says, of the names by number and of the names that have no number. -/
structure NameFilter.Matches {nmax : ℕ} (filter : NameFilter nmax) (find : Name → Option ℕ)
    (named : ℕ → Option Name) (skips : Name → Bool) : Prop where
  registered : ∀ id name, named id = some name → filter.isSkipped.get id = skips name
  unregistered : ∀ name, find name = none →
    (filter.isUnregisteredSkipped name).getD filter.isSkipped.defaultValue = skips name
  found : ∀ name id, find name = some id → filter.isUnregisteredSkipped name = none
  length_le : ∀ id, named id = none → filter.isSkipped.data.length ≤ id

/-- A call may mention the name: its number fits, and no entry would be left behind. -/
def NameFilter.Allows {nmax : ℕ} (filter : NameFilter nmax) (find : Name → Option ℕ) (isRemoving : Bool)
    (name : Name) : Prop :=
  (∀ id, find name = some id → id < nmax) ∧
    (find name = none → filter.isSkipped.defaultValue = isRemoving →
      filter.isUnregisteredSkipped name = none)

instance {nmax : ℕ} (filter : NameFilter nmax) (find : Name → Option ℕ) (isRemoving : Bool) (name : Name) :
    Decidable (filter.Allows find isRemoving name) :=
  inferInstanceAs (Decidable ((∀ id ∈ find name, id < nmax) ∧
    (find name = none → filter.isSkipped.defaultValue = isRemoving →
      filter.isUnregisteredSkipped name = none)))

section

variable {nmax : ℕ} {filter filter' : NameFilter nmax} {find : Name → Option ℕ}
  {named : ℕ → Option Name} {skips : Name → Bool} {name : Name}
  {setRegistered : AbstractLUT Bool nmax → ℕ → Bool → Option (AbstractLUT Bool nmax)} {isRemoving : Bool}

/-- Setting a number sets all numbers with the same name, and works if the number fits. -/
structure SetsSameName (find : Name → Option ℕ) (named : ℕ → Option Name)
    (setRegistered : AbstractLUT Bool nmax → ℕ → Bool → Option (AbstractLUT Bool nmax)) : Prop where
  find_eq : ∀ name id, find name = some id → named id = some name
  complete : ∀ name id, named id = some name → find name ≠ none
  isSome : ∀ lut name id value, find name = some id → id < nmax → (setRegistered lut id value).isSome
  defaultValue_eq : ∀ lut lut' name id value, find name = some id →
    setRegistered lut id value = some lut' → lut'.defaultValue = lut.defaultValue
  get_eq : ∀ lut lut' name id value, find name = some id → setRegistered lut id value = some lut' →
    ∀ i, lut'.get i = if named i = some name then value else lut.get i
  length_le : ∀ lut lut' name id value, find name = some id → setRegistered lut id value = some lut' →
    ∀ i, named i = none → lut.data.length ≤ i → lut'.data.length ≤ i

theorem NameFilter.matches_clear (find : Name → Option ℕ) (named : ℕ → Option Name)
    (filter : NameFilter nmax) (isSkipping : Bool) :
    (filter.clear isSkipping).Matches find named fun _ ↦ isSkipping where
  registered := fun _ _ _ ↦ rfl
  unregistered := fun _ _ ↦ rfl
  found := fun _ _ _ ↦ rfl
  length_le := fun _ _ ↦ Nat.zero_le _

/-- What a mention of a name does, when it goes through. -/
theorem NameFilter.change_cases (h : filter.change find setRegistered isRemoving name = some filter') :
    (∃ id lut, find name = some id ∧ setRegistered filter.isSkipped id isRemoving = some lut ∧
      filter' = ⟨lut, filter.isUnregisteredSkipped⟩) ∨
    (find name = none ∧ filter.isSkipped.defaultValue ≠ isRemoving ∧
      filter' = ⟨filter.isSkipped,
        Function.update filter.isUnregisteredSkipped name (some isRemoving)⟩) ∨
    (find name = none ∧ filter.isSkipped.defaultValue = isRemoving ∧ filter' = filter) := by
  unfold NameFilter.change at h
  cases hfind : find name with
  | some id =>
    rw [hfind] at h
    obtain ⟨lut, hset, rfl⟩ := Option.map_eq_some_iff.mp h
    exact .inl ⟨id, lut, rfl, hset, rfl⟩
  | none =>
    rw [hfind] at h
    dsimp only at h
    split at h
    · next hdefault =>
      cases h
      exact .inr (.inl ⟨rfl, hdefault, rfl⟩)
    · next hdefault =>
      cases h
      exact .inr (.inr ⟨rfl, not_not.mp hdefault, rfl⟩)

theorem NameFilter.isSome_change (hset : SetsSameName find named setRegistered)
    (hallows : filter.Allows find isRemoving name) :
    (filter.change find setRegistered isRemoving name).isSome := by
  unfold NameFilter.change
  cases hfind : find name with
  | some id =>
    rw [Option.isSome_map]
    exact hset.isSome _ name id _ hfind (hallows.1 id hfind)
  | none =>
    dsimp only
    split <;> rfl

/-- A mention changes what is said of the name. -/
theorem NameFilter.Matches.change (h : filter.Matches find named skips)
    (hset : SetsSameName find named setRegistered) (hallows : filter.Allows find isRemoving name)
    (hchange : filter.change find setRegistered isRemoving name = some filter') :
    filter'.Matches find named (Function.update skips name isRemoving) := by
  rcases NameFilter.change_cases hchange with ⟨id, lut, hfind, hlut, rfl⟩ | ⟨hfind, hdefault, rfl⟩ |
    ⟨hfind, hdefault, rfl⟩
  · constructor
    · intro i other hother
      have hget := hset.get_eq _ _ name id _ hfind hlut i
      rw [hget, hother, Function.update_apply, h.registered i other hother]
      simp only [Option.some.injEq]
    · intro other hother
      have hne : other ≠ name := by
        rintro rfl
        rw [hfind] at hother
        cases hother
      rw [Function.update_of_ne hne, ← h.unregistered other hother]
      exact congrArg _ (hset.defaultValue_eq _ _ name id _ hfind hlut)
    · exact h.found
    · intro i hi
      exact hset.length_le _ _ name id _ hfind hlut i hi (h.length_le i hi)
  · constructor
    · intro i other hother
      have hne : other ≠ name := by
        rintro rfl
        exact hset.complete _ _ hother hfind
      rw [Function.update_of_ne hne]
      exact h.registered i other hother
    · intro other hother
      by_cases hsame : other = name
      · subst hsame
        simp
      · dsimp only
        rw [Function.update_of_ne hsame, Function.update_of_ne hsame]
        exact h.unregistered other hother
    · intro other i hother
      have hne : other ≠ name := by
        rintro rfl
        rw [hfind] at hother
        cases hother
      dsimp only
      rw [Function.update_of_ne hne]
      exact h.found other i hother
    · exact h.length_le
  · -- the entry that would be left behind is not there
    have hnone := hallows.2 hfind hdefault
    have hskips := h.unregistered name hfind
    rw [hnone, Option.getD_none, hdefault] at hskips
    rw [hskips, Function.update_eq_self]
    exact h

/-- A mention leaves the other mentions of the call possible. -/
theorem NameFilter.Allows.change {other : Name} (h : filter.Allows find isRemoving other)
    (hset : SetsSameName find named setRegistered)
    (hchange : filter.change find setRegistered isRemoving name = some filter') :
    filter'.Allows find isRemoving other := by
  refine ⟨h.1, ?_⟩
  intro hother hdefault
  rcases NameFilter.change_cases hchange with ⟨id, lut, hfind, hlut, rfl⟩ | ⟨hfind, hne, rfl⟩ |
    ⟨hfind, hsame, rfl⟩
  · have hkept := hset.defaultValue_eq _ _ name id _ hfind hlut
    exact h.2 hother (hkept.symm.trans hdefault)
  · exact absurd hdefault hne
  · exact h.2 hother hdefault

end

/-! ## Instruments and message types -/

section

variable {tables : SymbolTranslator}

theorem findInstrument_eq_some {name : Name} {id : ℕ} :
    tables.findInstrument name = some id ↔ tables.instruments[id]? = some name := by
  rw [SymbolTranslator.findInstrument, List.findIdx?_eq_some_iff_getElem]
  constructor
  · intro h
    obtain ⟨hid, hname, -⟩ := h
    rw [List.getElem?_eq_getElem hid, eq_of_beq hname]
  · intro h
    obtain ⟨hid, hname⟩ := List.getElem?_eq_some_iff.mp h
    refine ⟨hid, beq_of_eq hname, ?_⟩
    intro j hj hsame
    have heq : tables.instruments[j] = tables.instruments[id] := (eq_of_beq hsame).trans hname.symm
    have hindex := (tables.instruments_nodup.getElem_inj_iff).mp heq
    omega

theorem setsSameName_instruments (tables : SymbolTranslator) :
    SetsSameName tables.findInstrument (tables.instruments[·]?)
      (AbstractLUT.set : AbstractLUT Bool 0x10000 → ℕ → Bool → Option (AbstractLUT Bool 0x10000)) where
  find_eq := fun _ _ ↦ findInstrument_eq_some.mp
  complete := by
    intro name id hname hnone
    rw [findInstrument_eq_some.mpr hname] at hnone
    cases hnone
  isSome := fun _ _ _ _ _ ↦ AbstractLUT.isSome_set_iff.mpr
  defaultValue_eq := fun _ _ _ _ _ _ ↦ AbstractLUT.defaultValue_set
  get_eq := by
    intro lut lut' name id value hfind hset i
    rw [AbstractLUT.get_set hset]
    congr 1
    rw [← findInstrument_eq_some, hfind, Option.some.injEq]
    exact propext eq_comm
  length_le := by
    intro lut lut' name id value hfind hset i hi hle
    have hid := (List.getElem?_eq_some_iff.mp (findInstrument_eq_some.mp hfind)).1
    have hlength := List.getElem?_eq_none_iff.mp hi
    exact AbstractLUT.length_set_le hset hle (Nat.lt_of_lt_of_le hid hlength)

/-- The type name of a message descriptor. -/
def SymbolTranslator.typeName (tables : SymbolTranslator) (id : ℕ) : Option Name :=
  (tables.messageDescriptors[id]?).map MessageDescriptor.typeName

/-- The descriptors below `bound` that have the name are set. -/
theorem modifyFilterSet_spec (name : Name) (value : Bool) {bound fuel : ℕ}
    (hbound : bound ≤ tables.messageDescriptors.length) (hfuel : bound ≤ fuel)
    (filter : AbstractLUT Bool 0x100) :
    ∃ filter', modifyFilterSet tables.messageDescriptors value fuel
        ((lastOfType name (tables.messageDescriptors.take bound)).getD emptyMsgTypeId) filter =
          some filter' ∧
      filter'.defaultValue = filter.defaultValue ∧
      (∀ i, tables.messageDescriptors.length ≤ i → filter.data.length ≤ i → filter'.data.length ≤ i) ∧
      ∀ i, filter'.get i = if i < bound ∧ tables.typeName i = some name then value else filter.get i := by
  induction bound using Nat.strongRecOn generalizing fuel filter with
  | ind bound ih =>
    cases hlast : lastOfType name (tables.messageDescriptors.take bound) with
    | none =>
      have hnone : ∀ i, ¬ (i < bound ∧ tables.typeName i = some name) := by
        intro i hi
        obtain ⟨descriptor, hget, hname⟩ := Option.map_eq_some_iff.mp hi.2
        have htaken : (tables.messageDescriptors.take bound)[i]? = some descriptor := by
          rwa [List.getElem?_take_of_lt hi.1]
        exact lastOfType_eq_none hlast htaken hname
      refine ⟨filter, ?_, rfl, fun _ _ h ↦ h, fun i ↦ (if_neg (hnone i)).symm⟩
      cases fuel with
      | zero => rfl
      | succ fuel => rfl
    | some id =>
      have hid : id < bound := by
        have hlt := lastOfType_lt hlast
        rw [List.length_take] at hlt
        omega
      obtain ⟨descriptor, htaken, hname⟩ := lastOfType_eq_some hlast
      rw [List.getElem?_take_of_lt hid] at htaken
      have htypes := tables.types_le
      obtain ⟨middle, hset⟩ : ∃ middle, filter.set id value = some middle :=
        Option.isSome_iff_exists.mp (AbstractLUT.isSome_set_iff.mpr (by omega))
      obtain ⟨fuel, rfl⟩ : ∃ n, fuel = n + 1 := ⟨fuel - 1, by omega⟩
      have hnext := tables.nextSameType_eq id descriptor htaken
      rw [hname] at hnext
      have hrecursion := @ih id hid fuel (by omega) (by omega) middle
      obtain ⟨filter', hrest, hdefault, hlength, hget⟩ := hrecursion
      refine ⟨filter', ?_, ?_, ?_, ?_⟩
      · have hfits : id < 0x100 := by omega
        simp only [modifyFilterSet, Option.getD_some, if_pos hfits, hset, htaken, hnext]
        exact hrest
      · rw [hdefault, AbstractLUT.defaultValue_set hset]
      · intro i hi hle
        exact hlength i hi (AbstractLUT.length_set_le hset hle (by omega))
      · intro i
        rw [hget, AbstractLUT.get_set hset]
        -- between `id` and `bound` no descriptor has the name
        have hlater : i < bound → tables.typeName i = some name → i ≤ id := by
          intro hi htype
          obtain ⟨other, hother, hothername⟩ := Option.map_eq_some_iff.mp htype
          have htakenOther : (tables.messageDescriptors.take bound)[i]? = some other := by
            rwa [List.getElem?_take_of_lt hi]
          obtain ⟨last, hlast', hle⟩ := le_lastOfType htakenOther hothername
          rw [hlast] at hlast'
          cases hlast'
          exact hle
        have hself : tables.typeName id = some name := by
          rw [SymbolTranslator.typeName, htaken, Option.map_some, hname]
        grind

theorem findMsgDescByType_eq_some {name : Name} {id : ℕ} (h : tables.findMsgDescByType name = some id) :
    tables.typeName id = some name := by
  rw [SymbolTranslator.findMsgDescByType, tables.typeIndex_eq] at h
  obtain ⟨descriptor, hget, hname⟩ := lastOfType_eq_some h
  rw [SymbolTranslator.typeName, hget, Option.map_some, hname]

theorem findMsgDescByType_ne_none {name : Name} {id : ℕ} (h : tables.typeName id = some name) :
    tables.findMsgDescByType name ≠ none := by
  obtain ⟨descriptor, hget, hname⟩ := Option.map_eq_some_iff.mp h
  obtain ⟨last, hlast, -⟩ := le_lastOfType hget hname
  rw [SymbolTranslator.findMsgDescByType, tables.typeIndex_eq, hlast]
  exact Option.some_ne_none _

theorem setsSameName_types (tables : SymbolTranslator) :
    SetsSameName tables.findMsgDescByType tables.typeName
      fun filter id value ↦ modifyFilterSet tables.messageDescriptors value
        tables.messageDescriptors.length id filter := by
  have hspec : ∀ (name : Name) (id : ℕ) (value : Bool) (lut : AbstractLUT Bool 0x100),
      tables.findMsgDescByType name = some id → ∃ lut',
        modifyFilterSet tables.messageDescriptors value tables.messageDescriptors.length id lut =
          some lut' ∧ lut'.defaultValue = lut.defaultValue ∧
        (∀ i, tables.messageDescriptors.length ≤ i → lut.data.length ≤ i → lut'.data.length ≤ i) ∧
        ∀ i, lut'.get i = if tables.typeName i = some name then value else lut.get i := by
    intro name id value lut hfind
    obtain ⟨lut', hrun, hdefault, hlength, hget⟩ := modifyFilterSet_spec name value (Nat.le_refl _) (Nat.le_refl _) lut
    rw [SymbolTranslator.findMsgDescByType, tables.typeIndex_eq] at hfind
    rw [List.take_length, hfind, Option.getD_some] at hrun
    refine ⟨lut', hrun, hdefault, hlength, ?_⟩
    intro i
    rw [hget i]
    congr 1
    apply propext
    constructor
    · exact And.right
    · intro htype
      obtain ⟨descriptor, hdescriptor, -⟩ := Option.map_eq_some_iff.mp htype
      exact ⟨(List.getElem?_eq_some_iff.mp hdescriptor).1, htype⟩
  constructor
  · exact fun _ _ ↦ findMsgDescByType_eq_some
  · exact fun _ _ ↦ findMsgDescByType_ne_none
  · intro lut name id value hfind _
    obtain ⟨lut', hrun, -⟩ := hspec name id value lut hfind
    exact Option.isSome_iff_exists.mpr ⟨lut', hrun⟩
  · intro lut lut' name id value hfind hset
    obtain ⟨other, hrun, hdefault, -⟩ := hspec name id value lut hfind
    rw [hset] at hrun
    cases hrun
    exact hdefault
  · intro lut lut' name id value hfind hset
    obtain ⟨other, hrun, -, -, hget⟩ := hspec name id value lut hfind
    rw [hset] at hrun
    cases hrun
    exact hget
  · intro lut lut' name id value hfind hset i hi hle
    obtain ⟨other, hrun, -, hlength, -⟩ := hspec name id value lut hfind
    rw [hset] at hrun
    cases hrun
    apply hlength i _ hle
    rw [← List.getElem?_eq_none_iff]
    exact Option.map_eq_none_iff.mp hi

end

/-! ## New numbers -/

/-- The name was given the next number. -/
structure Numbered (find : Name → Option ℕ) (named : ℕ → Option Name) (find' : Name → Option ℕ)
    (named' : ℕ → Option Name) (newId : ℕ) (name : Name) : Prop where
  named_none : ∀ i, named i = none ↔ newId ≤ i
  find_self : find' name = some newId
  find_other : ∀ other, other ≠ name → find' other = find other
  named_eq : ∀ i, named' i = if i = newId then some name else named i

namespace NameFilter.Matches

variable {nmax : ℕ} {filter : NameFilter nmax} {find find' : Name → Option ℕ}
  {named named' : ℕ → Option Name} {skips : Name → Bool} {name : Name} {newId : ℕ}

/-- The number has the value that the name had, and the entry for the name goes. -/
theorem settled {lut : AbstractLUT Bool nmax} {value : Bool} (h : filter.Matches find named skips)
    (hnumbered : Numbered find named find' named' newId name)
    (hset : filter.isSkipped.set newId value = some lut) (hvalue : value = skips name) :
    NameFilter.Matches ⟨lut, Function.update filter.isUnregisteredSkipped name none⟩ find' named' skips where
  registered := by
    intro id other hother
    rw [hnumbered.named_eq] at hother
    rw [AbstractLUT.get_set hset]
    split at hother
    · next hid =>
      cases hother
      rw [if_pos hid, hvalue]
    · next hid =>
      rw [if_neg hid]
      exact h.registered id other hother
  unregistered := by
    intro other hother
    have hne : other ≠ name := by
      intro hsame
      rw [hsame, hnumbered.find_self] at hother
      cases hother
    dsimp only
    rw [Function.update_of_ne hne, AbstractLUT.defaultValue_set hset]
    exact h.unregistered other (hnumbered.find_other other hne ▸ hother)
  found := by
    intro other id hother
    by_cases hsame : other = name
    · rw [hsame]
      exact Function.update_self _ _ _
    · dsimp only
      rw [Function.update_of_ne hsame]
      exact h.found other id (hnumbered.find_other other hsame ▸ hother)
  length_le := by
    intro i hi
    rw [hnumbered.named_eq] at hi
    split at hi
    · cases hi
    · next hne =>
      have hle := (hnumbered.named_none i).mp hi
      exact AbstractLUT.length_set_le hset (h.length_le i hi) (by omega)

/-- Nothing is to be moved: the number is beyond the end of the table. -/
theorem unsettled (h : filter.Matches find named skips)
    (hnumbered : Numbered find named find' named' newId name) (hfind : find name = none)
    (hpending : filter.isUnregisteredSkipped name = none) : filter.Matches find' named' skips where
  registered := by
    intro id other hother
    rw [hnumbered.named_eq] at hother
    split at hother
    · next hid =>
      cases hother
      have hskips := h.unregistered name hfind
      rw [hpending] at hskips
      rw [AbstractLUT.get_of_length_le (h.length_le id ((hnumbered.named_none id).mpr (Nat.le_of_eq hid.symm)))]
      exact hskips
    · exact h.registered id other hother
  unregistered := by
    intro other hother
    have hne : other ≠ name := by
      intro hsame
      rw [hsame, hnumbered.find_self] at hother
      cases hother
    exact h.unregistered other (hnumbered.find_other other hne ▸ hother)
  found := by
    intro other id hother
    by_cases hsame : other = name
    · rw [hsame]
      exact hpending
    · exact h.found other id (hnumbered.find_other other hsame ▸ hother)
  length_le := by
    intro i hi
    rw [hnumbered.named_eq] at hi
    split at hi
    · cases hi
    · exact h.length_le i hi

end NameFilter.Matches

theorem registerInstrument_numbered {tables tables' : SymbolTranslator} {name : Name}
    (h : tables.registerInstrument name = some tables') :
    tables.findInstrument name = none ∧
      Numbered tables.findInstrument (tables.instruments[·]?) tables'.findInstrument
        (tables'.instruments[·]?) tables.instruments.length name := by
  obtain ⟨hnew, hinstruments, -, -⟩ := SymbolTranslator.registerInstrument_eq_some h
  have hnot : ∀ id : ℕ, tables.instruments[id]? ≠ some name := by
    intro id hid
    exact hnew (List.mem_of_getElem? hid)
  have hnamed : ∀ i : ℕ, tables'.instruments[i]? =
      if i = tables.instruments.length then some name else tables.instruments[i]? := by
    intro i
    rw [hinstruments]
    grind
  constructor
  · rw [Option.eq_none_iff_forall_ne_some]
    intro id hfind
    exact hnot id (findInstrument_eq_some.mp hfind)
  · constructor
    · intro i
      exact List.getElem?_eq_none_iff
    · rw [findInstrument_eq_some, hnamed, if_pos rfl]
    · intro other hne
      apply Option.ext
      intro id
      rw [findInstrument_eq_some, findInstrument_eq_some, hnamed]
      split
      · next hid =>
        have hnone : tables.instruments[id]? = none := List.getElem?_eq_none_iff.mpr (Nat.le_of_eq hid.symm)
        rw [hnone]
        simp [Ne.symm hne]
      · rfl
    · exact hnamed

theorem registerMessageDescriptor_numbered {tables tables' : SymbolTranslator} {typeName guid : Name}
    (h : tables.registerMessageDescriptor typeName guid = some tables') :
    Numbered tables.findMsgDescByType tables.typeName tables'.findMsgDescByType tables'.typeName
      tables.messageDescriptors.length typeName := by
  obtain ⟨-, -, ⟨nextSameType, hdescriptors⟩, hindex⟩ :=
    SymbolTranslator.registerMessageDescriptor_eq_some h
  constructor
  · intro i
    rw [SymbolTranslator.typeName, Option.map_eq_none_iff]
    exact List.getElem?_eq_none_iff
  · rw [SymbolTranslator.findMsgDescByType, hindex, Function.update_self]
  · intro other hne
    rw [SymbolTranslator.findMsgDescByType, hindex, Function.update_of_ne hne]
    rfl
  · intro i
    rw [SymbolTranslator.typeName, SymbolTranslator.typeName, hdescriptors]
    grind

/-! ## The calls -/

/-- The state filters as the calls say. -/
structure Follows (symbols types : Name → Bool) (s : SubscriptionState) : Prop where
  symbols : s.symbols.Matches s.tables.findInstrument (s.tables.instruments[·]?) symbols
  types : s.types.Matches s.tables.findMsgDescByType s.tables.typeName types

/-- The loop of a call, over the filter from which `state` makes the state. -/
theorem changeNames_spec {nmax : ℕ} {state : NameFilter nmax → SubscriptionState}
    {body : Name → SubscriptionState → Option SubscriptionState} {find : Name → Option ℕ}
    {named : ℕ → Option Name}
    {setRegistered : AbstractLUT Bool nmax → ℕ → Bool → Option (AbstractLUT Bool nmax)}
    {isRemoving : Bool} (hset : SetsSameName find named setRegistered)
    (hbody : ∀ filter name, body name (state filter) =
      (filter.change find setRegistered isRemoving name).map state)
    {names : List Name} {filter : NameFilter nmax} {skips : Name → Bool}
    (h : filter.Matches find named skips)
    (hallows : ∀ name ∈ names, filter.Allows find isRemoving name) :
    wp (names.forM fun name ↦ orOutOfRange (body name))
      (fun _ s' ↦ ∃ filter', s' = state filter' ∧
        filter'.Matches find named fun name ↦ if names.contains name then isRemoving else skips name)
      (fun _ _ ↦ False) (state filter) := by
  induction names generalizing filter skips with
  | nil => exact ⟨filter, rfl, h⟩
  | cons name names ih =>
    have hallowed := hallows name (List.mem_cons_self ..)
    obtain ⟨filter', hchange⟩ := Option.isSome_iff_exists.mp (NameFilter.isSome_change hset hallowed)
    have hrest := ih (h.change hset hallowed hchange) fun other hother ↦
      (hallows other (List.mem_cons_of_mem _ hother)).change hset hchange
    rw [List.forM_eq_forM, List.forM_cons, wp_bind]
    simp only [orOutOfRange, wp_bind, wp_get, hbody, hchange, Option.map_some, wp_set]
    apply wp_mono hrest
    · intro _ s' h'
      obtain ⟨last, hs', hmatches⟩ := h'
      refine ⟨last, hs', ?_⟩
      have hskips : (fun other ↦ if names.contains other then isRemoving
          else Function.update skips name isRemoving other) =
          fun other ↦ if (name :: names).contains other then isRemoving else skips other := by
        funext other
        by_cases hsame : other = name
        · simp [hsame]
        · simp [hsame]
      rwa [← hskips]
    · exact fun _ _ ↦ id

/-- The filter after the part of a call that concerns all names. -/
def NameFilter.cover {nmax : ℕ} (filter : NameFilter nmax) (change : Change) : NameFilter nmax :=
  if coversAll change.names change.action then filter.clear (change.action ≠ .add) else filter

/-- What is said after that part. -/
def Change.cover (change : Change) (skips : Name → Bool) : Name → Bool :=
  if coversAll change.names change.action then fun _ ↦ change.action ≠ .add else skips

theorem Change.skips_eq (change : Change) (skips : Name → Bool) :
    (fun name ↦ change.skips name (skips name)) =
      fun name ↦ if (change.names.getD []).contains name then (change.action = .remove : Bool)
        else change.cover skips name := by
  funext name
  unfold Change.skips Change.cover coversAll
  cases change.names with
  | none => simp
  | some names =>
    by_cases hmem : names.contains name = true
    · simp [List.contains_iff_mem.mp hmem]
    · cases change.action <;> simp_all

theorem NameFilter.Matches.cover {nmax : ℕ} {filter : NameFilter nmax} {find : Name → Option ℕ}
    {named : ℕ → Option Name} {skips : Name → Bool} (h : filter.Matches find named skips)
    (change : Change) : (filter.cover change).Matches find named (change.cover skips) := by
  unfold NameFilter.cover Change.cover
  split
  · exact NameFilter.matches_clear find named filter _
  · exact h

/-- Every name of the call may be mentioned. -/
def NameFilter.AllowsAll {nmax : ℕ} (filter : NameFilter nmax) (find : Name → Option ℕ)
    (change : Change) : Prop :=
  ∀ name ∈ change.names.getD [], (filter.cover change).Allows find (change.action = .remove) name

instance {nmax : ℕ} (filter : NameFilter nmax) (find : Name → Option ℕ) (change : Change) :
    Decidable (filter.AllowsAll find change) := inferInstanceAs (Decidable (∀ _ ∈ _, _))

variable {symbols types : Name → Bool} {s : SubscriptionState}

theorem filterEntities_follows {change : Change} (h : Follows symbols types s)
    (hallows : s.symbols.AllowsAll s.tables.findInstrument change) :
    wp (filterEntities change.names change.action)
      (fun _ ↦ Follows (fun name ↦ change.skips name (symbols name)) types) (fun _ _ ↦ False) s := by
  have hbody : ∀ filter name, SubscriptionState.changeSymbol (change.action = .remove) name
      { s with symbols := filter } =
        (filter.change s.tables.findInstrument AbstractLUT.set (change.action = .remove) name).map
          fun filter ↦ { s with symbols := filter } := fun _ _ ↦ rfl
  have hloop := changeNames_spec (setsSameName_instruments s.tables) hbody (h.symbols.cover change) hallows
  have hcovered : wp ((change.names.getD []).forM fun name ↦
        orOutOfRange (·.changeSymbol (change.action = .remove) name))
      (fun _ ↦ Follows (fun name ↦ change.skips name (symbols name)) types) (fun _ _ ↦ False)
      { s with symbols := s.symbols.cover change } := by
    apply wp_mono hloop
    · intro _ s' h'
      obtain ⟨filter, rfl, hmatches⟩ := h'
      rw [← change.skips_eq] at hmatches
      exact ⟨hmatches, h.types⟩
    · exact fun _ _ ↦ id
  rw [filterEntities, wp_ite, wp_bind, wp_modify]
  unfold NameFilter.cover at hcovered
  constructor
  · intro hall
    rwa [if_pos hall] at hcovered
  · intro hall
    rwa [if_neg hall] at hcovered

theorem filterTypes_follows {change : Change} (h : Follows symbols types s)
    (hallows : s.types.AllowsAll s.tables.findMsgDescByType change) :
    wp (filterTypes change.names change.action)
      (fun _ ↦ Follows symbols fun name ↦ change.skips name (types name)) (fun _ _ ↦ False) s := by
  have hbody : ∀ filter name, SubscriptionState.changeType (change.action = .remove) name
      { s with types := filter } =
        (filter.change s.tables.findMsgDescByType
          (fun filter id value ↦ modifyFilterSet s.tables.messageDescriptors value
            s.tables.messageDescriptors.length id filter) (change.action = .remove) name).map
          fun filter ↦ { s with types := filter } := fun _ _ ↦ rfl
  have hloop := changeNames_spec (setsSameName_types s.tables) hbody (h.types.cover change) hallows
  have hcovered : wp ((change.names.getD []).forM fun name ↦
        orOutOfRange (·.changeType (change.action = .remove) name))
      (fun _ ↦ Follows symbols fun name ↦ change.skips name (types name)) (fun _ _ ↦ False)
      { s with types := s.types.cover change } := by
    apply wp_mono hloop
    · intro _ s' h'
      obtain ⟨filter, rfl, hmatches⟩ := h'
      rw [← change.skips_eq] at hmatches
      exact ⟨h.symbols, hmatches⟩
    · exact fun _ _ ↦ id
  rw [filterTypes, wp_ite, wp_bind, wp_modify]
  unfold NameFilter.cover at hcovered
  constructor
  · intro hall
    rwa [if_pos hall] at hcovered
  · intro hall
    rwa [if_neg hall] at hcovered

/-- What the server registers does not change what is said, unless the table of numbers is full. -/
theorem registerNewInstrument_follows {newId : ℕ} {instr : Name} (h : Follows symbols types s)
    (hfits : s.symbols.isUnregisteredSkipped instr ≠ none → newId < 0x10000) :
    wp (registerNewInstrument newId instr) (fun _ ↦ Follows symbols types)
      (fun _ ↦ Follows symbols types) s := by
  simp only [registerNewInstrument, wp_bind, wp_get, wp_ite, wp_throw]
  apply And.intro (fun _ ↦ h)
  intro hnew
  have hid : s.tables.instruments.length = newId := not_not.mp hnew
  cases hregister : s.tables.registerInstrument instr with
  | none => exact h
  | some tables =>
    obtain ⟨hfind, hnumbered⟩ := registerInstrument_numbered hregister
    have hsame := (SymbolTranslator.registerInstrument_eq_some hregister).2.2
    rw [hid] at hnumbered
    have htypes : s.types.Matches tables.findMsgDescByType tables.typeName types := by
      have hindex : tables.findMsgDescByType = s.tables.findMsgDescByType := by
        funext name
        rw [SymbolTranslator.findMsgDescByType, hsame.2]
        rfl
      have hnamed : tables.typeName = s.tables.typeName := by
        funext id
        rw [SymbolTranslator.typeName, hsame.1]
        rfl
      rw [hindex, hnamed]
      exact h.types
    simp only [wp_bind, wp_set, orOutOfRange, wp_get, NameFilter.settle]
    cases hpending : s.symbols.isUnregisteredSkipped instr with
    | none => exact ⟨h.symbols.unsettled hnumbered hfind hpending, htypes⟩
    | some isSkipped =>
      have hskips := h.symbols.unregistered instr hfind
      rw [hpending, Option.getD_some] at hskips
      have hroom := hfits (by rw [hpending]; exact Option.some_ne_none _)
      have hsome : (s.symbols.isSkipped.set newId isSkipped).isSome := AbstractLUT.isSome_set_iff.mpr hroom
      obtain ⟨lut, hset⟩ := Option.isSome_iff_exists.mp hsome
      simp only [hset, Option.map_some]
      exact ⟨h.symbols.settled hnumbered hset hskips, htypes⟩

/-- A new message type is given the value of its name. -/
theorem newTypeSkipped_eq (h : Follows symbols types s) (typeName : Name) :
    newTypeSkipped s.types typeName (s.tables.findMsgDescByType typeName) = types typeName := by
  unfold newTypeSkipped
  cases hpending : s.types.isUnregisteredSkipped typeName with
  | some isSkipped =>
    have hfind : s.tables.findMsgDescByType typeName = none := by
      rw [Option.eq_none_iff_forall_ne_some]
      intro id hid
      rw [h.types.found typeName id hid] at hpending
      cases hpending
    have hskips := h.types.unregistered typeName hfind
    rwa [hpending] at hskips
  | none =>
    cases hfind : s.tables.findMsgDescByType typeName with
    | some sibling => exact h.types.registered sibling typeName (findMsgDescByType_eq_some hfind)
    | none =>
      have hskips := h.types.unregistered typeName hfind
      rwa [hpending] at hskips

theorem registerNewMessageType_follows {newId : ℕ} {descriptor : Option (Name × Name)}
    (h : Follows symbols types s) :
    wp (registerNewMessageType newId descriptor) (fun _ ↦ Follows symbols types)
      (fun _ ↦ Follows symbols types) s := by
  simp only [registerNewMessageType, wp_bind, wp_get, wp_ite, wp_throw]
  apply And.intro (fun _ ↦ h)
  intro hnew
  have hid : s.tables.messageDescriptors.length = newId := not_not.mp hnew
  cases descriptor with
  | none => exact h
  | some named =>
    obtain ⟨typeName, guid⟩ := named
    dsimp only
    cases hregister : s.tables.registerMessageDescriptor typeName guid with
    | none => exact h
    | some tables =>
      have hnumbered := registerMessageDescriptor_numbered hregister
      obtain ⟨hfits, hsame, -, -⟩ := SymbolTranslator.registerMessageDescriptor_eq_some hregister
      rw [hid] at hnumbered hfits
      have hsymbols : s.symbols.Matches tables.findInstrument (tables.instruments[·]?) symbols := by
        have hfind : tables.findInstrument = s.tables.findInstrument := by
          funext name
          rw [SymbolTranslator.findInstrument, hsame]
          rfl
        rw [hfind, hsame]
        exact h.symbols
      have hvalue := newTypeSkipped_eq h typeName
      have hsome : (s.types.isSkipped.set newId
          (newTypeSkipped s.types typeName (s.tables.findMsgDescByType typeName))).isSome :=
        AbstractLUT.isSome_set_iff.mpr hfits
      obtain ⟨lut, hset⟩ := Option.isSome_iff_exists.mp hsome
      simp only [wp_bind, wp_set, orOutOfRange, wp_get, hset, Option.map_some]
      exact ⟨hsymbols, h.types.settled hnumbered hset hvalue⟩

/-! ## A client and a server -/

/-- The latest state filters as the calls say. -/
structure CursorFollows (symbols types : Name → Bool) (c : TickCursorImpl) : Prop where
  wellFormed : c.subState.WellFormed
  latest : Follows symbols types c.subState.latest

variable {c : TickCursorImpl}

theorem expectCommand_follows (cmdId : ℤ) : Preserves (Follows symbols types) (expectCommand cmdId) := by
  intro s hs
  simp only [expectCommand, wp_bind, wp_get, wp_ite, wp_throw, wp_set]
  exact ⟨fun _ ↦ ⟨hs.symbols, hs.types⟩, fun _ ↦ ⟨fun _ ↦ hs, fun _ ↦ ⟨hs.symbols, hs.types⟩⟩⟩

theorem onShadow_follows {program : SubscriptionM Unit}
    (h : Preserves (Follows symbols types) program) :
    Preserves (CursorFollows symbols types) (onShadow program) := by
  intro c hc
  apply wp_mono (onShadow_spec hc.wellFormed (h _ hc.latest))
  · exact fun _ c' h' ↦ ⟨h'.1, h'.2.2⟩
  · exact fun _ c' h' ↦ ⟨h'.1, h'.2.2⟩

theorem addSubscriptionCommand_follows (cmdId : ℤ) :
    Preserves (CursorFollows symbols types) (addSubscriptionCommand cmdId) := by
  apply Preserves.bind
  · exact onShadow_follows (expectCommand_follows cmdId)
  · intro _
    apply Preserves.bind
    · exact preserves_modify fun _ hc ↦ ⟨hc.wellFormed, hc.latest⟩
    · intro _
      apply onShadow_follows
      exact preserves_modify fun _ hs ↦ ⟨hs.symbols, hs.types⟩

/-- A call whose filter part works; whether the request does is no matter. -/
theorem changeSubscription_follows {filter : SubscriptionM Unit} {symbols' types' : Name → Bool}
    (answer : Request → Option ℤ) (request : TickCursorImpl → Request)
    (hc : CursorFollows symbols types c)
    (hfilter : wp filter (fun _ ↦ Follows symbols' types') (fun _ _ ↦ False) c.subState.latest) :
    wp (changeSubscription answer filter request) (fun _ ↦ CursorFollows symbols' types')
      (fun _ ↦ CursorFollows symbols' types') c := by
  apply wp_call (getWriteShadowState_spec hc.wellFormed)
  · intro _ c₁ h₁
    rw [← h₁.2.2] at hfilter
    apply wp_call (onShadow_spec h₁.1 hfilter)
    · intro _ c₂ h₂
      have hc₂ : CursorFollows symbols' types' c₂ := ⟨h₂.1, h₂.2.2⟩
      have hexecute : Preserves (CursorFollows symbols' types') (execute answer (request c₂)) := by
        unfold execute
        cases answer (request c₂) with
        | some cmdId => exact preserves_pure cmdId
        | none => exact preserves_throw _
      exact (hexecute.bind addSubscriptionCommand_follows) c₂ hc₂
    · exact fun _ _ h' ↦ h'.2.2.elim
  · exact fun _ _ ↦ False.elim

theorem takeOverInBlock_follows : Preserves (CursorFollows symbols types) takeOverInBlock := by
  intro c hc
  have htaken : CursorFollows symbols types { c with subState := c.subState.takeOver } :=
    ⟨CopyOnWrite.wellFormed_takeOver hc.wellFormed, (CopyOnWrite.latest_takeOver _).symm ▸ hc.latest⟩
  simp only [takeOverInBlock, wp_bind, wp_get, wp_ite, wp_modify, wp_pure, onMain, wp_zoom]
  refine ⟨fun _ ↦ ⟨fun _ ↦ ⟨CopyOnWrite.wellFormed_writeMain htaken.wellFormed, ?_⟩, fun _ ↦ htaken⟩,
    fun _ ↦ hc⟩
  rw [CopyOnWrite.latest_writeMain_takeOver hc.wellFormed, CopyOnWrite.current_takeOver hc.wellFormed]
  exact ⟨hc.latest.symbols, hc.latest.types⟩

theorem filterMessage_follows (entityId descriptorId : ℕ) (streamId : ℤ) :
    Preserves (CursorFollows symbols types) (filterMessage entityId descriptorId streamId) := by
  intro c hc
  rw [filterMessage, wp_bind]
  apply wp_mono (takeOverInBlock_follows c hc)
  · intro _ c' hc'
    simp only [wp_bind, wp_get, wp_ite, wp_throw, wp_set, wp_pure]
    exact ⟨fun _ ↦ hc', fun _ ↦ ⟨fun _ ↦ hc', fun _ ↦ ⟨fun _ ↦ hc', fun _ ↦
      ⟨fun _ ↦ hc', fun _ ↦ ⟨hc'.wellFormed, hc'.latest⟩⟩⟩⟩⟩
  · exact fun _ _ hc' ↦ hc'

/-- What a client or the server does to a cursor. The server answers a request with `cmdId`. -/
inductive FilterStep
  | modifyEntities (change : Change) (cmdId : ℤ)
  | modifyTypes (change : Change) (cmdId : ℤ)
  | readEntity (symbolId : ℕ) (symbol : Name)
  | readMessageType (descriptorId : ℕ) (descriptor : Option (Name × Name))
  | readMessage (entityId descriptorId : ℕ) (streamId : ℤ)
  deriving DecidableEq, Repr

/-- A cursor, and the calls that were made since its filters were cleared. -/
structure FilterSession where
  cursor : TickCursorImpl
  isSkippingAll : Bool
  entityChanges : List Change
  typeChanges : List Change

namespace FilterSession

def step (s : FilterSession) : FilterStep → FilterSession
  | .modifyEntities change cmdId => { s with
      cursor := finalState (modifyEntities (fun _ ↦ some cmdId) change.names change.action) s.cursor
      entityChanges := s.entityChanges ++ [change] }
  | .modifyTypes change cmdId => { s with
      cursor := finalState (modifyTypes (fun _ ↦ some cmdId) change.names change.action) s.cursor
      typeChanges := s.typeChanges ++ [change] }
  | .readEntity symbolId symbol => { s with cursor := finalState (readEntity symbolId symbol) s.cursor }
  | .readMessageType descriptorId descriptor =>
    { s with cursor := finalState (readMessageType descriptorId descriptor) s.cursor }
  | .readMessage entityId descriptorId streamId =>
    { s with cursor := finalState (filterMessage entityId descriptorId streamId) s.cursor }

def run : List FilterStep → FilterSession → FilterSession
  | [], s => s
  | next :: steps, s => run steps (s.step next)

/-- The filters were just cleared, whatever was registered before. -/
structure JustCleared (s : FilterSession) : Prop where
  wellFormed : s.cursor.subState.WellFormed
  cleared : ∃ state : SubscriptionState,
    s.cursor.subState.latest = state.clearMessageFilters s.isSkippingAll
  entityChanges : s.entityChanges = []
  typeChanges : s.typeChanges = []

/-- The state that `readNextMessageInBlock` looks at when a message comes. -/
def readingState (s : FilterSession) : SubscriptionState := s.cursor.subState.takeOver.current

/-- Each registered instrument and each message type is skipped if and only if the calls say so of its
name. -/
structure FollowsCalls (s : FilterSession) : Prop where
  instruments : ∀ (id : ℕ) (name : Name), s.readingState.tables.instruments[id]? = some name →
    s.readingState.symbols.isSkipped.get id = replay s.isSkippingAll s.entityChanges name
  types : ∀ (id : ℕ) (descriptor : MessageDescriptor),
    s.readingState.tables.messageDescriptors[id]? = some descriptor →
    s.readingState.types.isSkipped.get id = replay s.isSkippingAll s.typeChanges descriptor.typeName

/-- The step leaves no entry behind, and the numbers it needs fit in the table. -/
def Orderly (s : FilterSession) : FilterStep → Prop
  | .modifyEntities change _ =>
    s.cursor.subState.latest.symbols.AllowsAll s.cursor.subState.latest.tables.findInstrument change
  | .modifyTypes change _ =>
    s.cursor.subState.latest.types.AllowsAll s.cursor.subState.latest.tables.findMsgDescByType change
  | .readEntity symbolId symbol =>
    s.cursor.subState.latest.symbols.isUnregisteredSkipped symbol ≠ none → symbolId < 0x10000
  | .readMessageType _ _ => True
  | .readMessage _ _ _ => True

/-- Every step of a run is orderly. -/
def OrderlyRun : List FilterStep → FilterSession → Prop
  | [], _ => True
  | next :: steps, s => s.Orderly next ∧ OrderlyRun steps (s.step next)

instance (s : FilterSession) : (next : FilterStep) → Decidable (s.Orderly next)
  | .modifyEntities _ _ => inferInstanceAs (Decidable (NameFilter.AllowsAll _ _ _))
  | .modifyTypes _ _ => inferInstanceAs (Decidable (NameFilter.AllowsAll _ _ _))
  | .readEntity _ _ => inferInstanceAs (Decidable (_ → _))
  | .readMessageType _ _ => inferInstanceAs (Decidable True)
  | .readMessage _ _ _ => inferInstanceAs (Decidable True)

instance decidableOrderlyRun : (steps : List FilterStep) → (s : FilterSession) →
    Decidable (OrderlyRun steps s)
  | [], _ => inferInstanceAs (Decidable True)
  | next :: steps, s =>
    have := decidableOrderlyRun steps (s.step next)
    inferInstanceAs (Decidable (_ ∧ _))

/-- What orderly steps keep. -/
def Invariant (s : FilterSession) : Prop :=
  CursorFollows (replay s.isSkippingAll s.entityChanges) (replay s.isSkippingAll s.typeChanges) s.cursor

variable {s : FilterSession}

theorem JustCleared.invariant (h : s.JustCleared) : s.Invariant := by
  obtain ⟨state, hcleared⟩ := h.cleared
  refine ⟨h.wellFormed, ?_⟩
  rw [hcleared, h.entityChanges, h.typeChanges]
  exact ⟨NameFilter.matches_clear _ _ _ _, NameFilter.matches_clear _ _ _ _⟩

theorem Invariant.followsCalls (h : s.Invariant) : s.FollowsCalls := by
  have hlatest : s.readingState = s.cursor.subState.latest := CopyOnWrite.current_takeOver h.wellFormed
  constructor
  · intro id name hname
    rw [hlatest] at hname ⊢
    exact h.latest.symbols.registered id name hname
  · intro id descriptor hdescriptor
    rw [hlatest] at hdescriptor ⊢
    apply h.latest.types.registered id
    rw [SymbolTranslator.typeName, hdescriptor, Option.map_some]

theorem Invariant.step {next : FilterStep} (h : s.Invariant) (horderly : s.Orderly next) :
    (s.step next).Invariant := by
  cases next with
  | modifyEntities change cmdId =>
    have hreplay : replay s.isSkippingAll (s.entityChanges ++ [change]) =
        fun name ↦ change.skips name (replay s.isSkippingAll s.entityChanges name) := by
      funext name
      exact replay_append _ _ _ _
    have hcall := changeSubscription_follows (fun _ ↦ some cmdId)
      (fun c ↦ .changeEntities c.cursorId c.subscriptionTimeMs change.action change.names) h
      (filterEntities_follows h.latest horderly)
    simp only [Invariant, FilterSession.step, hreplay]
    exact finalState_of_wp hcall
  | modifyTypes change cmdId =>
    have hreplay : replay s.isSkippingAll (s.typeChanges ++ [change]) =
        fun name ↦ change.skips name (replay s.isSkippingAll s.typeChanges name) := by
      funext name
      exact replay_append _ _ _ _
    have hcall := changeSubscription_follows (fun _ ↦ some cmdId)
      (fun c ↦ .changeTypes c.cursorId c.subscriptionTimeMs change.action change.names) h
      (filterTypes_follows h.latest horderly)
    simp only [Invariant, FilterSession.step, hreplay]
    exact finalState_of_wp hcall
  | readEntity symbolId symbol =>
    have hread := synchronized_spec h.wellFormed (registerNewInstrument_follows h.latest horderly)
    apply finalState_of_wp
    apply wp_mono hread
    · exact fun _ c' h' ↦ ⟨h'.1, h'.2.2⟩
    · exact fun _ c' h' ↦ ⟨h'.1, h'.2.2⟩
  | readMessageType descriptorId descriptor =>
    have hread := readMessageType_spec h.wellFormed
      (@registerNewMessageType_follows _ _ _ descriptorId descriptor h.latest)
    apply finalState_of_wp
    apply wp_mono hread
    · exact fun _ c' h' ↦ ⟨h'.1, h'.2.2⟩
    · exact fun _ c' h' ↦ ⟨h'.1, h'.2.2⟩
  | readMessage entityId descriptorId streamId =>
    exact (filterMessage_follows entityId descriptorId streamId).finalState h

theorem Invariant.run {steps : List FilterStep} (h : s.Invariant) (horderly : OrderlyRun steps s) :
    (run steps s).Invariant := by
  induction steps generalizing s with
  | nil => exact h
  | cons next steps ih => exact ih (h.step horderly.1) horderly.2

/-- After any run of orderly steps the filter is what the calls say. -/
theorem filter_follows_calls {steps : List FilterStep} (hcleared : s.JustCleared)
    (horderly : OrderlyRun steps s) : (run steps s).FollowsCalls :=
  (hcleared.invariant.run horderly).followsCalls

/-- A cursor as `select` opens it, with nothing skipped. -/
def opened : FilterSession := ⟨openedCursor, false, [], []⟩

theorem opened_justCleared : opened.JustCleared :=
  ⟨CopyOnWrite.wellFormed_ofValue _, ⟨SubscriptionState.empty, rfl⟩, rfl, rfl⟩

/-- An instrument is removed before it is registered and another one after, and both descriptors of a
message type are removed at once. -/
def orderlySteps : List FilterStep :=
  [.modifyEntities ⟨some [[65]], .remove⟩ 0, .readEntity 0 [65], .readEntity 1 [66],
    .readMessageType 0 (some ([84], [])), .readMessageType 1 (some ([84], [])),
    .modifyEntities ⟨some [[66]], .remove⟩ 1, .modifyTypes ⟨some [[84]], .remove⟩ 2,
    .modifyEntities ⟨some [[65]], .add⟩ 3, .readMessage 0 0 (-1)]

theorem filter_follows_calls_opened : (run orderlySteps opened).FollowsCalls :=
  filter_follows_calls opened_justCleared (by decide +kernel)

/-- An instrument is removed and added again before it is registered. -/
def staleEntrySteps : List FilterStep :=
  [.modifyEntities ⟨some [[65]], .remove⟩ 0, .modifyEntities ⟨some [[65]], .add⟩ 1, .readEntity 0 [65]]

/-- The entry that the first call made is still there when the instrument comes. -/
theorem stale_entry_skips :
    ¬ ∀ steps s, JustCleared s → (run steps s).FollowsCalls := by
  intro hall
  have hfollows := (hall staleEntrySteps opened opened_justCleared).instruments 0 [65] (by decide +kernel)
  revert hfollows
  decide +kernel

end FilterSession

end DxApi.Cursor
