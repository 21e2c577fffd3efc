import DxApi.Cursor.LutStorage
import DxApi.Lib.PartialBijection
import Mathlib.Data.List.AList
import Mathlib.Data.PEquiv

/-!
# The two-way symbol table

`BiLUT` keeps pairs of an id and a name, the names in an array by id and the ids in a map by name. The array
is resized in front of the checks for conflicts, so also by an `add` that throws. After any calls the array
and the map are the two directions of one partial bijection.
-/

namespace DxApi.Cursor

open Exec

/-! ## The source -/

/-- What `BiLUT<TS, TI, TI_BASE>` asks of the type of the ids: the conversions to and from `uintptr_t`. -/
structure LutIds (TI : Type) where
  /-- `TI_BASE`. -/
  base : ℤ
  toUintptr : TI → ℕ
  ofUintptr : ℕ → TI
  toUintptr_lt : ∀ id, toUintptr id < 2 ^ 64
  ofUintptr_toUintptr : ∀ id, ofUintptr (toUintptr id) = id

/-- Why `add` or `registerInstrument` does not return. -/
inductive BiLutError
  | outOfRange
  /-- `resize` throws. -/
  | resize
  | nonUnique
  | outOfSync
  deriving DecidableEq, Repr

/-- The members of `BiLUT`; its functions have the type of the ids as an argument. -/
structure BiLUT (TS TI : Type) where
  i2s : List (Option TS)
  i2sSize : ℕ
  size : ℕ
  s2i : AList fun _ : TS ↦ TI

namespace LutIds

variable {TI : Type} (ids : LutIds TI)

/-- `invalidId`, `(ID)(TI_BASE - 1)`. -/
def invalidId : TI := ids.ofUintptr ((ids.base - 1) % 2 ^ 64).toNat

/-- `integerId - TI_BASE`, in 64 bits. -/
def index (id : TI) : ℕ := StoredLUT.offset ids.base (ids.toUintptr id)

/-- `(ID)(index + TI_BASE)`. -/
def idAt (index : ℕ) : TI := ids.ofUintptr (((index : ℤ) + ids.base) % 2 ^ 64).toNat

/-- `uint32_t`. -/
def uint32 (base : ℤ) : LutIds UInt32 where
  base := base
  toUintptr := UInt32.toNat
  ofUintptr := UInt32.ofNat
  toUintptr_lt id := id.toNat_lt.trans (by decide)
  ofUintptr_toUintptr id := UInt32.ofNat_toNat

end LutIds

namespace BiLUT

variable {TS TI : Type} [DecidableEq TS]

/-- `i2s_.max_size()`, of an array of pointers. -/
def maxSize : ℕ := (2 ^ 63 - 1) / 8

/-- A table that was just made. -/
def fresh : BiLUT TS TI := ⟨List.replicate 128 none, 0, 0, ∅⟩

/-- `i2s_[index]`, nothing for `NULL`. -/
def entry (lut : BiLUT TS TI) (index : ℕ) : Option TS := lut.i2s[index]?.join

/-- `operator[]` of an id. -/
def nameOf (ids : LutIds TI) (lut : BiLUT TS TI) (integerId : ℕ) : Option TS :=
  lut.entry (StoredLUT.offset ids.base integerId)

/-- `operator[]` of a name. -/
def idOf (ids : LutIds TI) (lut : BiLUT TS TI) (stringId : TS) : TI := (lut.s2i.lookup stringId).getD ids.invalidId

/-- `contains` of an id. -/
def containsId (ids : LutIds TI) (lut : BiLUT TS TI) (integerId : ℕ) : Bool :=
  decide (StoredLUT.offset ids.base integerId < lut.i2sSize) && (lut.nameOf ids integerId).isSome

/-- `contains` of a name. -/
def containsName [DecidableEq TI] (ids : LutIds TI) (lut : BiLUT TS TI) (key : TS) : Bool :=
  decide (ids.invalidId ≠ lut.idOf ids key)

/-- The table with an entry for the index, `NULL` in all that are made; nothing when `resize` throws. -/
def reserve (lut : BiLUT TS TI) (index : ℕ) : Option (BiLUT TS TI) :=
  if lut.i2sSize ≤ index then
    if maxSize < index + 1 then none
    else some
      { lut with
        i2s := lut.i2s.take (index + 1) ++ List.replicate (index + 1 - lut.i2s.length) none
        i2sSize := index + 1 }
  else some lut

/-- What `add` does when there is no conflict. -/
def insert (ids : LutIds TI) (lut : BiLUT TS TI) (index : ℕ) (key : TS) : BiLUT TS TI :=
  { lut with
    i2s := lut.i2s.set index (some key)
    size := lut.size + 1
    s2i := lut.s2i.insert key (ids.idAt index) }

def add [DecidableEq TI] (ids : LutIds TI) (integerId : TI) (key : TS) : EStateM BiLutError (BiLUT TS TI) Bool := do
  let index := ids.index integerId
  if 2 ^ 63 - 1 < index then throw .outOfRange
  else
    match (← get).reserve index with
    | none => throw .resize
    | some lut =>
      set lut
      let s := lut.nameOf ids (ids.toUintptr integerId)
      let i := lut.idOf ids key
      if s ≠ none ∨ ids.invalidId ≠ i then
        if i = integerId ∧ s = some key then return false
        else throw .nonUnique
      else
        set (lut.insert ids index key)
        return true

def clear (_ : BiLUT TS TI) : BiLUT TS TI := ⟨[], 0, 0, ∅⟩

/-- `SymbolTranslator::registerInstrument`, on the table `instruments`. -/
def registerInstrument [DecidableEq TI] (ids : LutIds TI) (entityId : TI) (instr : TS) :
    EStateM BiLutError (BiLUT TS TI) Bool := do
  let prevEntityId := (← get).idOf ids instr
  if prevEntityId ≠ entityId then
    if prevEntityId ≠ ids.invalidId then throw .outOfSync
    else
      let _ ← add ids entityId instr
      return true
  else return false

end BiLUT

/-- `SymbolLUT`, up to the type of the names: `BiLUT<std::string, uint32_t, 0>`. -/
def symbolIds : LutIds UInt32 := .uint32 0

/-- A call of a function that changes the table; the ids are valid. `clear` of a `SymbolTranslator` is `clear`
of its table. -/
inductive BiLutCall {TI : Type} (ids : LutIds TI) (TS : Type)
  | add (integerId : { id // id ≠ ids.invalidId }) (key : TS)
  | registerInstrument (entityId : { id // id ≠ ids.invalidId }) (instr : TS)
  | clear

section

variable {TS TI : Type} [DecidableEq TS] [DecidableEq TI] {ids : LutIds TI}

def BiLutCall.exec : BiLutCall ids TS → EStateM BiLutError (BiLUT TS TI) Unit
  | .add integerId key => do let _ ← BiLUT.add ids integerId.1 key
  | .registerInstrument entityId instr => do let _ ← BiLUT.registerInstrument ids entityId.1 instr
  | .clear => modify BiLUT.clear

/-- The calls one after the other; what they throw is caught. -/
def runBiLut (calls : List (BiLutCall ids TS)) (lut : BiLUT TS TI) : BiLUT TS TI :=
  calls.foldl (fun lut call ↦ finalState call.exec lut) lut

end

/-! ## Ids and indexes -/

namespace LutIds

variable {TI : Type} {ids : LutIds TI} {id id' : TI} {n m : ℕ}

theorem offset_injective {base : ℤ} (hn : n < 2 ^ 64) (hm : m < 2 ^ 64)
    (h : StoredLUT.offset base n = StoredLUT.offset base m) : n = m := by
  unfold StoredLUT.offset at h
  omega

@[simp]
theorem idAt_index (ids : LutIds TI) (id : TI) : ids.idAt (ids.index id) = id := by
  have hlt := ids.toUintptr_lt id
  have hsame : (((ids.index id : ℕ) : ℤ) + ids.base) % 2 ^ 64 = ids.toUintptr id := by
    unfold index StoredLUT.offset
    omega
  rw [idAt, hsame, Int.toNat_natCast, ids.ofUintptr_toUintptr]

theorem index_injective (ids : LutIds TI) : Function.Injective ids.index :=
  Function.LeftInverse.injective ids.idAt_index

/-- The array can have an entry for the id. -/
def Fits (ids : LutIds TI) (id : TI) : Prop := ids.index id < BiLUT.maxSize

instance (ids : LutIds TI) (id : TI) : Decidable (ids.Fits id) := inferInstanceAs (Decidable (_ < _))

end LutIds

theorem symbolIds_fits (id : UInt32) : symbolIds.Fits id := by
  have hlt := id.toNat_lt
  change (((id.toNat : ℤ) - 0) % 2 ^ 64).toNat < (2 ^ 63 - 1) / 8
  omega

/-! ## The pairs -/

namespace BiLUT

variable {TS TI : Type} [DecidableEq TS] {ids : LutIds TI} {lut lut' : BiLUT TS TI} {pairs : TI ≃. TS}
  {id : TI} {name : TS} {index n : ℕ}

/-- The pairs in the map by name. -/
def listed (lut : BiLUT TS TI) : List (TI × TS) := lut.s2i.entries.map fun entry ↦ (entry.2, entry.1)

/-- The array and the map are the two directions of the partial bijection; what is not in use of the array is
`NULL`. -/
structure Represents (ids : LutIds TI) (lut : BiLUT TS TI) (pairs : TI ≃. TS) : Prop where
  entry_iff : ∀ index name, lut.entry index = some name ↔ ∃ id, ids.index id = index ∧ pairs id = some name
  lookup_eq : ∀ name, lut.s2i.lookup name = pairs.symm name
  lists : PartialBijection.Lists pairs lut.listed
  size_eq : lut.size = lut.s2i.entries.length
  i2sSize_le : lut.i2sSize ≤ lut.i2s.length
  i2sSize_max : lut.i2sSize ≤ maxSize
  unused : ∀ index, lut.i2sSize ≤ index → lut.entry index = none
  invalid_eq : pairs ids.invalidId = none

theorem represents_fresh (ids : LutIds TI) : (fresh : BiLUT TS TI).Represents ids ⊥ := by
  have hentry (index : ℕ) : (fresh : BiLUT TS TI).entry index = none := by
    change ((List.replicate 128 none)[index]?).join = none
    rw [List.getElem?_replicate]
    split <;> rfl
  constructor
  · simp [hentry]
  · exact fun name ↦ AList.lookup_empty name
  · exact PartialBijection.lists_bot
  · rfl
  · exact Nat.zero_le _
  · exact Nat.zero_le _
  · exact fun index _ ↦ hentry index
  · rfl

theorem represents_clear (ids : LutIds TI) (lut : BiLUT TS TI) : lut.clear.Represents ids ⊥ := by
  constructor
  · simp [clear, entry]
  · exact fun name ↦ AList.lookup_empty name
  · exact PartialBijection.lists_bot
  · rfl
  · exact Nat.zero_le _
  · exact Nat.zero_le _
  · exact fun index _ ↦ rfl
  · rfl

/-- `operator[]` of an id. -/
theorem Represents.nameOf (h : lut.Represents ids pairs) (id : TI) :
    lut.nameOf ids (ids.toUintptr id) = pairs id := by
  ext name
  change lut.entry (ids.index id) = some name ↔ pairs id = some name
  rw [h.entry_iff]
  constructor
  · rintro ⟨id', hindex, hpair⟩
    rwa [← ids.index_injective hindex]
  · exact fun hpair ↦ ⟨id, rfl, hpair⟩

/-- `operator[]` of a name. -/
theorem Represents.idOf (h : lut.Represents ids pairs) (name : TS) :
    lut.idOf ids name = (pairs.symm name).getD ids.invalidId := by
  rw [BiLUT.idOf, h.lookup_eq]

omit [DecidableEq TS] in
theorem symm_ne_invalid (hinvalid : pairs ids.invalidId = none) (name : TS) :
    pairs.symm name ≠ some ids.invalidId := by
  intro hname
  rw [PEquiv.eq_some_iff pairs, hinvalid] at hname
  cases hname

/-- The id of a name is valid exactly if the name is in a pair. -/
theorem Represents.idOf_eq_invalid_iff (h : lut.Represents ids pairs) (name : TS) :
    lut.idOf ids name = ids.invalidId ↔ pairs.symm name = none := by
  rw [h.idOf]
  have hne := symm_ne_invalid h.invalid_eq name
  cases hname : pairs.symm name with
  | none => simp
  | some id =>
    rw [hname] at hne
    simpa using hne

theorem Represents.idOf_eq_iff (h : lut.Represents ids pairs) (hid : id ≠ ids.invalidId) :
    lut.idOf ids name = id ↔ pairs id = some name := by
  rw [h.idOf, ← PEquiv.eq_some_iff pairs]
  cases hname : pairs.symm name with
  | none => simpa using hid.symm
  | some id' => simp

theorem Represents.containsId_iff (h : lut.Represents ids pairs) (hn : n < 2 ^ 64) :
    lut.containsId ids n = true ↔ ∃ id, ids.toUintptr id = n ∧ (pairs id).isSome := by
  rw [containsId, Bool.and_eq_true, decide_eq_true_eq]
  constructor
  · rintro ⟨-, hsome⟩
    obtain ⟨name, hname⟩ := Option.isSome_iff_exists.mp hsome
    obtain ⟨id, hindex, hpair⟩ := (h.entry_iff _ name).mp hname
    refine ⟨id, LutIds.offset_injective (ids.toUintptr_lt id) hn hindex, ?_⟩
    rw [hpair]
    rfl
  · rintro ⟨id, rfl, hsome⟩
    rw [h.nameOf]
    refine ⟨?_, hsome⟩
    by_contra hbehind
    have hnone := h.unused _ (Nat.le_of_not_lt hbehind)
    have hname := h.nameOf id
    rw [BiLUT.nameOf, hnone] at hname
    rw [← hname] at hsome
    cases hsome

theorem Represents.containsName_iff [DecidableEq TI] (h : lut.Represents ids pairs) (name : TS) :
    lut.containsName ids name = true ↔ (pairs.symm name).isSome := by
  rw [containsName, decide_eq_true_eq, ne_comm, ne_eq, h.idOf_eq_invalid_iff, Option.isSome_iff_ne_none]

omit [DecidableEq TS] in
/-- The entries of the array stay what they are when it is resized. -/
theorem entry_reserve (hunused : ∀ index, lut.i2sSize ≤ index → lut.entry index = none)
    (hreserve : lut.reserve n = some lut') (index : ℕ) : lut'.entry index = lut.entry index := by
  have hnone := hunused index
  unfold reserve at hreserve
  split_ifs at hreserve with hbehind hmax
  · cases hreserve
    unfold entry at hnone ⊢
    by_cases hbefore : index < n + 1
    · by_cases hlength : index < lut.i2s.length
      · rw [List.getElem?_append_left (by grind), List.getElem?_take_of_lt hbefore]
      · rw [List.getElem?_append_right (by grind), List.getElem?_replicate, List.getElem?_eq_none (by omega)]
        split <;> rfl
    · rw [hnone (by omega), List.getElem?_eq_none]
      · rfl
      · simp only [List.length_append, List.length_take, List.length_replicate]
        omega
  · cases hreserve
    rfl

theorem Represents.reserve (h : lut.Represents ids pairs) (hreserve : lut.reserve n = some lut') :
    lut'.Represents ids pairs ∧ n < lut'.i2sSize := by
  have hentry := entry_reserve h.unused hreserve
  unfold BiLUT.reserve at hreserve
  split_ifs at hreserve with hbehind hmax
  · cases hreserve
    refine ⟨⟨?_, h.lookup_eq, h.lists, h.size_eq, ?_, Nat.le_of_not_lt hmax, ?_, h.invalid_eq⟩, Nat.lt_succ_self n⟩
    · intro index name
      rw [hentry, h.entry_iff]
    · simp only [List.length_append, List.length_take, List.length_replicate]
      omega
    · intro index hindex
      rw [hentry, h.unused]
      exact hbehind.trans (Nat.le_of_succ_le hindex)
  · cases hreserve
    exact ⟨h, Nat.lt_of_not_le hbehind⟩

omit [DecidableEq TS] in
theorem reserve_eq_none_iff : lut.reserve n = none ↔ lut.i2sSize ≤ n ∧ maxSize ≤ n := by
  unfold reserve
  split_ifs with hbehind hmax
  · simp only [true_iff]
    omega
  · simp only [false_iff]
    omega
  · simp only [false_iff]
    omega

/-- An entry in use is set, and the name put into the map. -/
theorem Represents.insert [DecidableEq TI] (h : lut.Represents ids pairs) (hid : id ≠ ids.invalidId)
    (hused : ids.index id < lut.i2sSize) (ha : pairs id = none) (hb : pairs.symm name = none) :
    (lut.insert ids (ids.index id) name).Represents ids (PartialBijection.insert pairs id name ha hb) := by
  have hnew : name ∉ lut.s2i := by
    rw [← AList.lookup_eq_none, h.lookup_eq, hb]
  have hentry (index : ℕ) : (lut.insert ids (ids.index id) name).entry index =
      if index = ids.index id then some name else lut.entry index := by
    have hlength := h.i2sSize_le
    unfold BiLUT.insert entry
    grind
  constructor
  · intro index name'
    rw [hentry]
    split_ifs with hsame
    · constructor
      · intro hname
        exact ⟨id, hsame.symm, by rw [PartialBijection.insert_apply, if_pos rfl, hname]⟩
      · rintro ⟨id', hindex, hpair⟩
        rwa [ids.index_injective (hindex.trans hsame), PartialBijection.insert_apply, if_pos rfl] at hpair
    · rw [h.entry_iff]
      refine exists_congr fun id' ↦ and_congr_right fun hindex ↦ ?_
      rw [PartialBijection.insert_apply, if_neg]
      rintro rfl
      exact hsame hindex.symm
  · intro name'
    change (lut.s2i.insert name (ids.idAt (ids.index id))).lookup name' = _
    rw [PartialBijection.insert_symm_apply, ids.idAt_index]
    split_ifs with hsame
    · rw [hsame, AList.lookup_insert]
    · rw [AList.lookup_insert_ne hsame, h.lookup_eq]
  · have hlisted : (lut.insert ids (ids.index id) name).listed = (id, name) :: lut.listed := by
      rw [listed, BiLUT.insert, AList.entries_insert_of_notMem hnew, List.map_cons, ids.idAt_index]
      rfl
    rw [hlisted]
    exact h.lists.insert ha hb
  · rw [BiLUT.insert, AList.entries_insert_of_notMem hnew, List.length_cons, ← h.size_eq]
  · rw [BiLUT.insert, List.length_set]
    exact h.i2sSize_le
  · exact h.i2sSize_max
  · intro index hindex
    have hbehind : lut.i2sSize ≤ index := hindex
    rw [hentry, if_neg (by omega), h.unused index hbehind]
  · rw [PartialBijection.insert_apply, if_neg hid.symm, h.invalid_eq]

/-- What `add` does when the array is large enough or can be resized. -/
theorem add_of_reserve [DecidableEq TI] (hrange : ids.index id ≤ 2 ^ 63 - 1)
    (hreserve : lut.reserve (ids.index id) = some lut') (name : TS) :
    add ids id name lut =
      if lut'.nameOf ids (ids.toUintptr id) ≠ none ∨ ids.invalidId ≠ lut'.idOf ids name then
        if lut'.idOf ids name = id ∧ lut'.nameOf ids (ids.toUintptr id) = some name then .ok false lut'
        else .error .nonUnique lut'
      else .ok true (lut'.insert ids (ids.index id) name) := by
  unfold add
  rw [if_neg (by omega), run_get_bind]
  simp only [hreserve, run_set_bind]
  split_ifs <;> rfl

theorem add_of_outOfRange [DecidableEq TI] (hrange : 2 ^ 63 - 1 < ids.index id) (name : TS) :
    add ids id name lut = .error .outOfRange lut := by
  unfold add
  rw [if_pos hrange]
  rfl

theorem add_of_not_reserve [DecidableEq TI] (hrange : ids.index id ≤ 2 ^ 63 - 1)
    (hreserve : lut.reserve (ids.index id) = none) (name : TS) : add ids id name lut = .error .resize lut := by
  unfold add
  rw [if_neg (by omega), run_get_bind]
  simp only [hreserve, run_throw]

end BiLUT

section

variable {TS TI : Type} [DecidableEq TS] [DecidableEq TI] {ids : LutIds TI} {lut lut' : BiLUT TS TI}
  {pairs : TI ≃. TS} {id : TI} {name : TS}

/-- Whether a pair is registered, with any view of which pairs a table has: a pair that is there changes
nothing; of a fresh id and a fresh name it makes a pair; otherwise it throws, and the pairs and their number
stay. -/
def Registers (shows : BiLUT TS TI → (TI ≃. TS) → Prop) (ids : LutIds TI)
    (register : TI → TS → EStateM BiLutError (BiLUT TS TI) Bool) (lut : BiLUT TS TI) (pairs : TI ≃. TS) : Prop :=
  ∀ id name, id ≠ ids.invalidId →
    if pairs id = some name then register id name lut = .ok false lut
    else if h : ids.Fits id ∧ pairs id = none ∧ pairs.symm name = none then
      ∃ lut', register id name lut = .ok true lut' ∧
        shows lut' (PartialBijection.insert pairs id name h.2.1 h.2.2)
    else ∃ error lut', register id name lut = .error error lut' ∧ shows lut' pairs ∧ lut'.size = lut.size

namespace BiLUT

omit [DecidableEq TI] in
theorem Represents.size_unique (h : lut.Represents ids pairs) (h' : lut'.Represents ids pairs) :
    lut'.size = lut.size := by
  have hlength := h'.lists.length_eq h.lists
  rw [listed, listed, List.length_map, List.length_map] at hlength
  rw [h.size_eq, h'.size_eq, hlength]

/-- `add`, once there is an entry for the id. -/
theorem Represents.add_reserved (h : lut.Represents ids pairs) (hid : id ≠ ids.invalidId)
    (hrange : ids.index id ≤ 2 ^ 63 - 1) (hreserve : lut.reserve (ids.index id) = some lut') (name : TS) :
    add ids id name lut =
      if pairs id = some name then .ok false lut'
      else if pairs id = none ∧ pairs.symm name = none then .ok true (lut'.insert ids (ids.index id) name)
      else .error .nonUnique lut' := by
  have h' := (h.reserve hreserve).1
  have hconflict : (pairs id ≠ none ∨ ids.invalidId ≠ lut'.idOf ids name) ↔
      ¬ (pairs id = none ∧ pairs.symm name = none) := by
    rw [ne_comm (a := ids.invalidId), ne_eq, ne_eq, h'.idOf_eq_invalid_iff, Decidable.not_and_iff_not_or_not]
  have hsame : (lut'.idOf ids name = id ∧ pairs id = some name) ↔ pairs id = some name := by
    rw [h'.idOf_eq_iff hid, and_self_iff]
  simp only [add_of_reserve hrange hreserve, h'.nameOf, hconflict, hsame]
  by_cases hpair : pairs id = some name
  · rw [if_pos hpair, if_pos hpair, if_pos]
    rw [hpair]
    exact fun hfresh ↦ nomatch hfresh.1
  · rw [if_neg hpair, if_neg hpair]
    split_ifs <;> rfl

omit [DecidableEq TI] in
/-- An id that is in a pair has its entry already. -/
theorem Represents.reserve_of_pair (h : lut.Represents ids pairs) (hpair : pairs id = some name) :
    lut.reserve (ids.index id) = some lut := by
  rw [BiLUT.reserve, if_neg]
  intro hbehind
  have hnone := h.unused _ hbehind
  rw [(h.entry_iff _ name).mpr ⟨id, rfl, hpair⟩] at hnone
  cases hnone

theorem Represents.add (h : lut.Represents ids pairs) : Registers (Represents ids) ids (add ids) lut pairs := by
  intro id name hid
  have hmax : maxSize ≤ 2 ^ 63 - 1 := by decide
  cases hreserve : lut.reserve (ids.index id) with
  | none =>
    obtain ⟨hbehind, hlarge⟩ := reserve_eq_none_iff.mp hreserve
    have hfits : ¬ ids.Fits id := Nat.not_lt_of_le hlarge
    have hnone : pairs id = none := by
      rw [← h.nameOf]
      exact h.unused _ hbehind
    rw [if_neg (by rw [hnone]; exact nofun), dif_neg fun hfresh ↦ hfits hfresh.1]
    by_cases hrange : ids.index id ≤ 2 ^ 63 - 1
    · exact ⟨.resize, lut, add_of_not_reserve hrange hreserve name, h, rfl⟩
    · exact ⟨.outOfRange, lut, add_of_outOfRange (Nat.lt_of_not_le hrange) name, h, rfl⟩
  | some lut' =>
    obtain ⟨h', hused⟩ := h.reserve hreserve
    have hfits : ids.Fits id := Nat.lt_of_lt_of_le hused h'.i2sSize_max
    have hrange : ids.index id ≤ 2 ^ 63 - 1 := Nat.le_of_lt (Nat.lt_of_lt_of_le hfits hmax)
    rw [h.add_reserved hid hrange hreserve name]
    split_ifs with hpair hfresh hfresh' hfresh'
    · rw [h.reserve_of_pair hpair] at hreserve
      cases hreserve
      rfl
    · exact ⟨_, rfl, h'.insert hid hused hfresh.2.1 hfresh.2.2⟩
    · exact absurd hfresh.2 hfresh'
    · exact absurd ⟨hfits, hfresh'⟩ hfresh
    · exact ⟨.nonUnique, lut', rfl, h', h.size_unique h'⟩

/-- `registerInstrument` throws for a name with another id, and otherwise is `add`. -/
theorem Represents.registerInstrument (h : lut.Represents ids pairs) :
    Registers (Represents ids) ids (registerInstrument ids) lut pairs := by
  intro id name hid
  have hadd := h.add id name hid
  have hsame : lut.idOf ids name = id ↔ pairs id = some name := h.idOf_eq_iff hid
  have hinvalid := h.idOf_eq_invalid_iff name
  have hregister : BiLUT.registerInstrument ids id name lut =
      if pairs id = some name then .ok false lut
      else if pairs.symm name = none then (do let _ ← BiLUT.add ids id name; return true : EStateM _ _ Bool) lut
      else .error .outOfSync lut := by
    rw [BiLUT.registerInstrument, run_get_bind]
    simp only [ne_eq, hsame, hinvalid, ite_not]
    split_ifs <;> rfl
  rw [hregister]
  split_ifs at hadd ⊢ with hpair hfresh hname hname
  · rfl
  · obtain ⟨lut', hrun, hlut'⟩ := hadd
    refine ⟨lut', ?_, hlut'⟩
    rw [run_bind_of_ok hrun, run_pure]
  · exact absurd hfresh.2.2 hname
  · obtain ⟨error, lut', hrun, hlut'⟩ := hadd
    refine ⟨error, lut', ?_, hlut'⟩
    exact run_bind_of_error hrun
  · exact ⟨.outOfSync, lut, rfl, h, rfl⟩

end BiLUT

/-- What `operator[]`, `contains` and `size` say of a table is that it has the pairs of the partial bijection. -/
structure IsPairing (ids : LutIds TI) (lut : BiLUT TS TI) (pairs : TI ≃. TS) : Prop where
  nameOf_eq : ∀ id, lut.nameOf ids (ids.toUintptr id) = pairs id
  idOf_eq : ∀ name, lut.idOf ids name = (pairs.symm name).getD ids.invalidId
  invalid_eq : pairs ids.invalidId = none
  containsId_iff : ∀ n < 2 ^ 64, lut.containsId ids n = true ↔ ∃ id, ids.toUintptr id = n ∧ (pairs id).isSome
  containsName_iff : ∀ name, lut.containsName ids name = true ↔ (pairs.symm name).isSome
  size_eq : ∃ l, PartialBijection.Lists pairs l ∧ l.length = lut.size

theorem BiLUT.Represents.isPairing (h : lut.Represents ids pairs) : IsPairing ids lut pairs where
  nameOf_eq := h.nameOf
  idOf_eq := h.idOf
  invalid_eq := h.invalid_eq
  containsId_iff _ hn := h.containsId_iff hn
  containsName_iff := h.containsName_iff
  size_eq := ⟨lut.listed, h.lists, by rw [h.size_eq, listed, List.length_map]⟩

theorem Registers.mono {shows shows' : BiLUT TS TI → (TI ≃. TS) → Prop}
    {register : TI → TS → EStateM BiLutError (BiLUT TS TI) Bool} (h : Registers shows ids register lut pairs)
    (hshows : ∀ lut pairs, shows lut pairs → shows' lut pairs) : Registers shows' ids register lut pairs := by
  intro id name hid
  have hcase := h id name hid
  split_ifs at hcase ⊢ with hpair hfresh
  · exact hcase
  · obtain ⟨lut', hrun, hlut'⟩ := hcase
    exact ⟨lut', hrun, hshows _ _ hlut'⟩
  · obtain ⟨error, lut', hrun, hlut', hsize⟩ := hcase
    exact ⟨error, lut', hrun, hshows _ _ hlut', hsize⟩

/-- Whatever a registration does, the table has the pairs of some partial bijection. -/
theorem Registers.finalState {register : TI → TS → EStateM BiLutError (BiLUT TS TI) Bool}
    (h : Registers (BiLUT.Represents ids) ids register lut pairs) (hlut : lut.Represents ids pairs)
    (hid : id ≠ ids.invalidId) (name : TS) :
    ∃ pairs', (Exec.finalState (register id name) lut).Represents ids pairs' := by
  have hcase := h id name hid
  unfold Exec.finalState
  split_ifs at hcase with hpair hfresh
  · rw [hcase]
    exact ⟨pairs, hlut⟩
  · obtain ⟨lut', hrun, hlut'⟩ := hcase
    rw [hrun]
    exact ⟨_, hlut'⟩
  · obtain ⟨error, lut', hrun, hlut', -⟩ := hcase
    rw [hrun]
    exact ⟨pairs, hlut'⟩

namespace BiLUT

theorem Represents.exec (h : lut.Represents ids pairs) (call : BiLutCall ids TS) :
    ∃ pairs', (finalState call.exec lut).Represents ids pairs' := by
  cases call with
  | add integerId key =>
    rw [BiLutCall.exec, finalState_discard]
    exact h.add.finalState h integerId.2 key
  | registerInstrument entityId instr =>
    rw [BiLutCall.exec, finalState_discard]
    exact h.registerInstrument.finalState h entityId.2 instr
  | clear => exact ⟨⊥, represents_clear ids lut⟩

theorem represents_run (calls : List (BiLutCall ids TS)) : ∃ pairs, (runBiLut calls fresh).Represents ids pairs := by
  have hkeep (lut : BiLUT TS TI) (call : BiLutCall ids TS) (hlut : ∃ pairs, lut.Represents ids pairs) :
      ∃ pairs, (finalState call.exec lut).Represents ids pairs := by
    obtain ⟨pairs, h⟩ := hlut
    exact h.exec call
  exact Runs.foldl_keeps hkeep ⟨⊥, represents_fresh ids⟩ calls

end BiLUT

end

/-- After any calls a table has the pairs of a partial bijection, and the next `add`, `registerInstrument` or
`clear` does with them what it is for. -/
def IsSymbolTable {TI : Type} [DecidableEq TI] (ids : LutIds TI) (TS : Type) [DecidableEq TS] : Prop :=
  ∀ calls : List (BiLutCall ids TS), ∃ pairs : TI ≃. TS,
    IsPairing ids (runBiLut calls .fresh) pairs ∧
    Registers (IsPairing ids) ids (BiLUT.add ids) (runBiLut calls .fresh) pairs ∧
    Registers (IsPairing ids) ids (BiLUT.registerInstrument ids) (runBiLut calls .fresh) pairs ∧
    IsPairing ids (runBiLut calls .fresh).clear (⊥ : TI ≃. TS)

theorem isSymbolTable {TI : Type} [DecidableEq TI] (ids : LutIds TI) (TS : Type) [DecidableEq TS] :
    IsSymbolTable ids TS := by
  intro calls
  obtain ⟨pairs, h⟩ := BiLUT.represents_run calls
  have hshows (lut : BiLUT TS TI) (pairs : TI ≃. TS) (hlut : lut.Represents ids pairs) := hlut.isPairing
  exact ⟨pairs, h.isPairing, h.add.mono hshows, h.registerInstrument.mono hshows,
    (BiLUT.represents_clear ids _).isPairing⟩

/-- The table is a bijection whatever its ids and names are, and in a `SymbolLUT` there is an entry for every
id. -/
theorem symbol_table_bijective :
    (∀ (TI TS : Type) [DecidableEq TI] [DecidableEq TS] (ids : LutIds TI), IsSymbolTable ids TS) ∧
    ∀ id, symbolIds.Fits id :=
  ⟨fun _ TS _ _ ids ↦ isSymbolTable ids TS, symbolIds_fits⟩

end DxApi.Cursor
