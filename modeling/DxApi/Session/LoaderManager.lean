import DxApi.Lib.Runs
import Mathlib.Data.Finset.Basic
import Mathlib.Logic.Function.Basic

/-!
# The loaders of the manager thread

`LoaderManager::remove` works in sections under the lock of the manager. A call that waits for the
response of the server marks the loader in `being_removed_` in a first section and takes it out of
both sets in a second one; other calls may run in between. The manager thread does not take that
lock: it looks a loader up and processes it under the shared lock of the set `loaders_`, which keeps
`add` and `remove` of this set away.
-/

namespace DxApi.Session

variable {Loader : Type} [DecidableEq Loader]

/-- Where a call of `remove` is while it holds the lock of the manager: before `loaders_.find`, before
`being_removed_.find`, before `loaders_.remove` of a call that does not wait, before
`being_removed_.add`, and, behind the wait, before `being_removed_.remove` and `loaders_.remove`. -/
inductive SectionPoint (Loader : Type)
  | finding (loader : Loader) (waitForCompletion : Bool)
  | checking (loader : Loader) (waitForCompletion : Bool)
  | removing (loader : Loader)
  | marking (loader : Loader)
  | unmarking (loader : Loader) (raised : Bool)
  | erasing (loader : Loader) (raised : Bool)

/-- Where the manager thread is: in `processAll`, behind the shared lock of `loaders_` in `process`, or
in `processResponse`. -/
inductive ManagerPoint (Loader : Type)
  | between
  | looking (loader : Loader)
  | responding (loader : Loader)

structure LoaderManager (Loader : Type) where
  loaders : Finset Loader
  beingRemoved : Finset Loader
  /-- The call that holds `thisLock_`, and where it is. -/
  thisLock : Option (ℕ × SectionPoint Loader)
  /-- The calls in the wait for the response of the server. -/
  waiting : ℕ → Option Loader
  manager : ManagerPoint Loader
  /-- What the iterator of `processAll` has left. -/
  iter : Finset Loader
  /-- All loaders that were added. -/
  added : Finset Loader
  /-- The calls of `remove` that have returned, with their results. -/
  results : List (Loader × Bool)

namespace LoaderManager

def created : LoaderManager Loader := ⟨∅, ∅, none, fun _ ↦ none, .between, ∅, ∅, []⟩

/-- The manager thread holds the shared lock of `loaders_`. -/
def lockedShared (m : LoaderManager Loader) : Bool :=
  match m.manager with
  | .between => false
  | .looking _ => true
  | .responding _ => true

/-- A call leaves its section and returns. -/
def returnFrom (m : LoaderManager Loader) (loader : Loader) (result : Bool) : LoaderManager Loader :=
  { m with thisLock := none, results := m.results ++ [(loader, result)] }

/-- The next step of the call that holds the lock. -/
def advance (m : LoaderManager Loader) (caller : ℕ) : SectionPoint Loader → LoaderManager Loader
  | .finding loader waitForCompletion =>
    if loader ∈ m.loaders then { m with thisLock := some (caller, .checking loader waitForCompletion) }
    else m.returnFrom loader false
  | .checking loader waitForCompletion =>
    if loader ∈ m.beingRemoved then m.returnFrom loader false
    else if waitForCompletion then { m with thisLock := some (caller, .marking loader) }
    else { m with thisLock := some (caller, .removing loader) }
  | .removing loader =>
    if m.lockedShared then m
    else { m with loaders := m.loaders.erase loader }.returnFrom loader true
  | .marking loader =>
    { m with
      beingRemoved := insert loader m.beingRemoved
      thisLock := none
      waiting := Function.update m.waiting caller (some loader) }
  | .unmarking loader raised =>
    { m with
      beingRemoved := m.beingRemoved.erase loader
      thisLock := some (caller, .erasing loader raised) }
  | .erasing loader raised =>
    if m.lockedShared then m
    else if raised then { m with loaders := m.loaders.erase loader, thisLock := none }
    else { m with loaders := m.loaders.erase loader }.returnFrom loader true

/-- The next step of the manager thread in `process`. -/
def advanceManager (m : LoaderManager Loader) : LoaderManager Loader :=
  match m.manager with
  | .between => m
  | .looking loader => { m with manager := if loader ∈ m.loaders then .responding loader else .between }
  | .responding _ => { m with manager := .between }

/-- A step of a thread. -/
inductive Action (Loader : Type)
  /-- A loader is added once. -/
  | add (loader : Loader)
  /-- A call of `remove` takes the lock. -/
  | remove (caller : ℕ) (loader : Loader) (waitForCompletion : Bool)
  /-- The call that holds the lock goes on. -/
  | advance
  /-- A call that waits has got its response, runs out of time or catches an exception. -/
  | endWait (caller : ℕ) (raised : Bool)
  /-- `processAll` begins with a copy of the set. -/
  | processAll
  /-- The iterator hands out a loader, in any order. -/
  | process (loader : Loader)
  | manager

/-- A call that waits takes the lock again. -/
def endWait (m : LoaderManager Loader) (caller : ℕ) (raised : Bool) : Option Loader → LoaderManager Loader
  | none => m
  | some loader =>
    { m with
      thisLock := some (caller, .unmarking loader raised)
      waiting := Function.update m.waiting caller none }

/-- A step that cannot be taken changes nothing. -/
def step (m : LoaderManager Loader) : Action Loader → LoaderManager Loader
  | .add loader =>
    if loader ∉ m.added ∧ ¬ m.lockedShared then
      { m with loaders := insert loader m.loaders, added := insert loader m.added }
    else m
  | .remove caller loader waitForCompletion =>
    if m.thisLock.isNone ∧ m.waiting caller = none then
      { m with thisLock := some (caller, .finding loader waitForCompletion) }
    else m
  | .advance =>
    match m.thisLock with
    | none => m
    | some (caller, point) => m.advance caller point
  | .endWait caller raised =>
    if m.thisLock.isNone then m.endWait caller raised (m.waiting caller) else m
  | .processAll =>
    if m.lockedShared then m else { m with iter := m.loaders }
  | .process loader =>
    if loader ∈ m.iter ∧ ¬ m.lockedShared then
      { m with iter := m.iter.erase loader, manager := .looking loader }
    else m
  | .manager => m.advanceManager

def run (actions : List (Action Loader)) : LoaderManager Loader := actions.foldl step created

/-! ## What holds between the steps -/

/-- What a call knows under the lock. -/
def Knows (m : LoaderManager Loader) : SectionPoint Loader → Prop
  | .finding _ _ => True
  | .checking loader _ => loader ∈ m.loaders
  | .removing loader => loader ∈ m.loaders ∧ loader ∉ m.beingRemoved
  | .marking loader => loader ∈ m.loaders ∧ loader ∉ m.beingRemoved
  | .unmarking loader _ => loader ∈ m.beingRemoved ∧ ∀ caller, m.waiting caller ≠ some loader
  | .erasing loader _ => loader ∈ m.loaders ∧ loader ∉ m.beingRemoved

structure Managed (m : LoaderManager Loader) : Prop where
  subset : m.beingRemoved ⊆ m.loaders
  knows : ∀ caller point, m.thisLock = some (caller, point) → Knows m point
  waiting_mem : ∀ caller loader, m.waiting caller = some loader → loader ∈ m.beingRemoved
  /-- One call waits for a loader at most. -/
  waiting_unique : ∀ caller other loader, m.waiting caller = some loader → m.waiting other = some loader →
    caller = other
  responding_mem : ∀ loader, m.manager = .responding loader → loader ∈ m.loaders
  loaders_added : m.loaders ⊆ m.added
  removed_added : ∀ loader, (loader, true) ∈ m.results → loader ∈ m.added
  removed : ∀ loader, (loader, true) ∈ m.results → loader ∉ m.loaders
  once : ∀ loader, m.results.count (loader, true) ≤ 1

section

variable {m : LoaderManager Loader} {loader : Loader} {caller : ℕ} {point : SectionPoint Loader}

/-- A call that takes the lock or goes on under it. -/
theorem Managed.at_point (h : Managed m) (hknows : Knows m point) :
    Managed { m with thisLock := some (caller, point) } where
  subset := h.subset
  knows := by
    rintro caller' point' hlock
    cases hlock
    cases point <;> exact hknows
  waiting_mem := h.waiting_mem
  waiting_unique := h.waiting_unique
  responding_mem := h.responding_mem
  loaders_added := h.loaders_added
  removed_added := h.removed_added
  removed := h.removed
  once := h.once

theorem Managed.unlock (h : Managed m) : Managed { m with thisLock := none } where
  subset := h.subset
  knows := fun _ _ hlock ↦ nomatch hlock
  waiting_mem := h.waiting_mem
  waiting_unique := h.waiting_unique
  responding_mem := h.responding_mem
  loaders_added := h.loaders_added
  removed_added := h.removed_added
  removed := h.removed
  once := h.once

/-- A call that removes nothing. -/
theorem Managed.return_false (h : Managed m) (loader : Loader) : Managed (m.returnFrom loader false) := by
  have hmem : ∀ other, (other, true) ∈ m.results ++ [(loader, false)] → (other, true) ∈ m.results := by
    intro other hother
    rcases List.mem_append.mp hother with hbefore | hlast
    · exact hbefore
    · cases List.mem_singleton.mp hlast
  have hunlocked := h.unlock
  refine ⟨h.subset, hunlocked.knows, h.waiting_mem, h.waiting_unique, h.responding_mem, h.loaders_added, ?_, ?_, ?_⟩
  · exact fun other hother ↦ h.removed_added other (hmem other hother)
  · exact fun other hother ↦ h.removed other (hmem other hother)
  · intro other
    change (m.results ++ [(loader, false)]).count (other, true) ≤ 1
    rw [List.count_append, List.count_singleton, if_neg (by simp), Nat.add_zero]
    exact h.once other

/-- `loaders_.remove`, while nobody processes a loader. -/
theorem Managed.erase (h : Managed m) (hbetween : m.lockedShared = false) (hloader : loader ∉ m.beingRemoved) :
    Managed { m with loaders := m.loaders.erase loader, thisLock := none } where
  subset := Finset.subset_erase.mpr ⟨h.subset, hloader⟩
  knows := fun _ _ hlock ↦ nomatch hlock
  waiting_mem := h.waiting_mem
  waiting_unique := h.waiting_unique
  responding_mem := by
    intro other hother
    change m.manager = _ at hother
    rw [lockedShared, hother] at hbetween
    cases hbetween
  loaders_added := (Finset.erase_subset loader m.loaders).trans h.loaders_added
  removed_added := h.removed_added
  removed := fun other hother hmem ↦ h.removed other hother (Finset.mem_of_mem_erase hmem)
  once := h.once

/-- A call that removes the loader is the only one. -/
theorem Managed.return_true (h : Managed m) (hbetween : m.lockedShared = false) (hmem : loader ∈ m.loaders)
    (hloader : loader ∉ m.beingRemoved) :
    Managed ({ m with loaders := m.loaders.erase loader }.returnFrom loader true) := by
  have herased := h.erase hbetween hloader
  have hfirst : (loader, true) ∉ m.results := fun hbefore ↦ h.removed loader hbefore hmem
  refine ⟨herased.subset, herased.knows, herased.waiting_mem, herased.waiting_unique, herased.responding_mem,
    herased.loaders_added, ?_, ?_, ?_⟩
  · intro other hother
    rcases List.mem_append.mp hother with hbefore | hlast
    · exact h.removed_added other hbefore
    · cases List.mem_singleton.mp hlast
      exact h.loaders_added hmem
  · intro other hother
    rcases List.mem_append.mp hother with hbefore | hlast
    · exact herased.removed other hbefore
    · cases List.mem_singleton.mp hlast
      exact Finset.notMem_erase loader m.loaders
  · intro other
    change (m.results ++ [(loader, true)]).count (other, true) ≤ 1
    rw [List.count_append, List.count_singleton]
    by_cases hsame : other = loader
    · subst hsame
      rw [List.count_eq_zero.mpr hfirst, Nat.zero_add]
      split <;> omega
    · rw [if_neg (by simpa using Ne.symm hsame), Nat.add_zero]
      exact h.once other

/-- `being_removed_.add`: the call begins to wait. -/
theorem Managed.mark (h : Managed m) (hmem : loader ∈ m.loaders) (hloader : loader ∉ m.beingRemoved) :
    Managed { m with
      beingRemoved := insert loader m.beingRemoved
      thisLock := none
      waiting := Function.update m.waiting caller (some loader) } := by
  have hnobody : ∀ other, m.waiting other ≠ some loader := fun other hother ↦ hloader (h.waiting_mem other loader hother)
  have hwaiting : ∀ other loader', Function.update m.waiting caller (some loader) other = some loader' →
      other = caller ∧ loader' = loader ∨ m.waiting other = some loader' := by
    intro other loader' hother
    by_cases hsame : other = caller
    · subst hsame
      rw [Function.update_self] at hother
      exact .inl ⟨rfl, (Option.some.inj hother).symm⟩
    · rw [Function.update_of_ne hsame] at hother
      exact .inr hother
  refine ⟨Finset.insert_subset hmem h.subset, fun _ _ hlock ↦ (nomatch hlock), ?_, ?_, h.responding_mem,
    h.loaders_added, h.removed_added, h.removed, h.once⟩
  · intro other loader' hother
    rcases hwaiting other loader' hother with ⟨_, rfl⟩ | hbefore
    · exact Finset.mem_insert_self _ _
    · exact Finset.mem_insert_of_mem (h.waiting_mem other loader' hbefore)
  · intro other other' loader' hother hother'
    rcases hwaiting other loader' hother with ⟨hfirst, rfl⟩ | hbefore
    · rcases hwaiting other' loader' hother' with ⟨hsecond, _⟩ | hbefore'
      · exact hfirst.trans hsecond.symm
      · exact absurd hbefore' (hnobody other')
    · rcases hwaiting other' loader' hother' with ⟨_, rfl⟩ | hbefore'
      · exact absurd hbefore (hnobody other)
      · exact h.waiting_unique other other' loader' hbefore hbefore'

/-- `being_removed_.remove`: no other call waits for the loader. -/
theorem Managed.unmark (h : Managed m) (raised : Bool) (hmem : loader ∈ m.beingRemoved)
    (hnobody : ∀ other, m.waiting other ≠ some loader) :
    Managed { m with
      beingRemoved := m.beingRemoved.erase loader
      thisLock := some (caller, .erasing loader raised) } where
  subset := (Finset.erase_subset loader m.beingRemoved).trans h.subset
  knows := by
    rintro caller' point' hlock
    cases hlock
    exact ⟨h.subset hmem, Finset.notMem_erase loader m.beingRemoved⟩
  waiting_mem := by
    intro other loader' hother
    have hne : loader' ≠ loader := fun heq ↦ hnobody other (heq ▸ hother)
    exact Finset.mem_erase.mpr ⟨hne, h.waiting_mem other loader' hother⟩
  waiting_unique := h.waiting_unique
  responding_mem := h.responding_mem
  loaders_added := h.loaders_added
  removed_added := h.removed_added
  removed := h.removed
  once := h.once

/-- A step under the lock. -/
theorem Managed.advance (h : Managed m) (hknows : Knows m point) : Managed (m.advance caller point) := by
  cases point with
  | finding loader waitForCompletion =>
    rw [LoaderManager.advance]
    split
    next hmem => exact h.at_point hmem
    next => exact h.return_false loader
  | checking loader waitForCompletion =>
    rw [LoaderManager.advance]
    split
    next => exact h.return_false loader
    next hnot =>
      split
      next => exact h.at_point ⟨hknows, hnot⟩
      next => exact h.at_point ⟨hknows, hnot⟩
  | removing loader =>
    rw [LoaderManager.advance]
    split
    next => exact h
    next hbetween => exact h.return_true (Bool.eq_false_iff.mpr hbetween) hknows.1 hknows.2
  | marking loader => exact h.mark hknows.1 hknows.2
  | unmarking loader raised => exact h.unmark raised hknows.1 hknows.2
  | erasing loader raised =>
    rw [LoaderManager.advance]
    split
    next => exact h
    next hbetween =>
      split
      next => exact h.erase (Bool.eq_false_iff.mpr hbetween) hknows.2
      next => exact h.return_true (Bool.eq_false_iff.mpr hbetween) hknows.1 hknows.2

/-- A call that waited takes the lock again: nobody else waits for its loader. -/
theorem Managed.endWait (h : Managed m) (raised : Bool) :
    Managed (m.endWait caller raised (m.waiting caller)) := by
  cases hcaller : m.waiting caller with
  | none => exact h
  | some loader =>
    have hbefore : ∀ other loader', Function.update m.waiting caller none other = some loader' →
        other ≠ caller ∧ m.waiting other = some loader' := by
      intro other loader' hother
      by_cases hsame : other = caller
      · subst hsame
        rw [Function.update_self] at hother
        cases hother
      · rw [Function.update_of_ne hsame] at hother
        exact ⟨hsame, hother⟩
    refine ⟨h.subset, ?_, ?_, ?_, h.responding_mem, h.loaders_added, h.removed_added, h.removed, h.once⟩
    · rintro caller' point' hlock
      cases hlock
      refine ⟨h.waiting_mem caller loader hcaller, fun other hother ↦ ?_⟩
      obtain ⟨hne, hwaiting⟩ := hbefore other loader hother
      exact hne (h.waiting_unique other caller loader hwaiting hcaller)
    · exact fun other loader' hother ↦ h.waiting_mem other loader' (hbefore other loader' hother).2
    · exact fun other other' loader' hother hother' ↦ h.waiting_unique other other' loader'
        (hbefore other loader' hother).2 (hbefore other' loader' hother').2

/-- A loader that was not added before. -/
theorem Managed.add (h : Managed m) (hnew : loader ∉ m.added) :
    Managed { m with loaders := insert loader m.loaders, added := insert loader m.added } where
  subset := h.subset.trans (Finset.subset_insert loader m.loaders)
  knows := by
    intro caller point hlock
    have hbefore := h.knows caller point hlock
    cases point with
    | finding loader' waitForCompletion => trivial
    | checking loader' waitForCompletion => exact Finset.mem_insert_of_mem hbefore
    | removing loader' => exact ⟨Finset.mem_insert_of_mem hbefore.1, hbefore.2⟩
    | marking loader' => exact ⟨Finset.mem_insert_of_mem hbefore.1, hbefore.2⟩
    | unmarking loader' raised => exact hbefore
    | erasing loader' raised => exact ⟨Finset.mem_insert_of_mem hbefore.1, hbefore.2⟩
  waiting_mem := h.waiting_mem
  waiting_unique := h.waiting_unique
  responding_mem := fun other hother ↦ Finset.mem_insert_of_mem (h.responding_mem other hother)
  loaders_added := Finset.insert_subset_insert loader h.loaders_added
  removed_added := fun other hother ↦ Finset.mem_insert_of_mem (h.removed_added other hother)
  removed := by
    intro other hother hmem
    rcases Finset.mem_insert.mp hmem with rfl | hbefore
    · exact hnew (h.removed_added other hother)
    · exact h.removed other hother hbefore
  once := h.once

/-- The manager thread responds to loaders of the set only. -/
theorem Managed.at_manager (h : Managed m) (iter : Finset Loader) {point : ManagerPoint Loader}
    (hpoint : ∀ loader, point = .responding loader → loader ∈ m.loaders) :
    Managed { m with iter := iter, manager := point } where
  subset := h.subset
  knows := by
    intro caller point' hlock
    have hbefore := h.knows caller point' hlock
    cases point' <;> exact hbefore
  waiting_mem := h.waiting_mem
  waiting_unique := h.waiting_unique
  responding_mem := hpoint
  loaders_added := h.loaders_added
  removed_added := h.removed_added
  removed := h.removed
  once := h.once

theorem Managed.advanceManager (h : Managed m) : Managed m.advanceManager := by
  rw [LoaderManager.advanceManager]
  split
  next => exact h
  next loader _ =>
    apply h.at_manager m.iter
    intro other hother
    split at hother
    next hmem =>
      cases hother
      exact hmem
    next => cases hother
  next => exact h.at_manager m.iter fun _ hother ↦ nomatch hother

theorem Managed.step (h : Managed m) (action : Action Loader) : Managed (m.step action) := by
  cases action with
  | add loader =>
    rw [LoaderManager.step]
    split
    next hnew => exact h.add hnew.1
    next => exact h
  | remove caller loader waitForCompletion =>
    rw [LoaderManager.step]
    split
    next => exact h.at_point trivial
    next => exact h
  | advance =>
    rw [LoaderManager.step]
    split
    next => exact h
    next caller point hlock => exact h.advance (h.knows caller point hlock)
  | endWait caller raised =>
    rw [LoaderManager.step]
    split
    next => exact h.endWait raised
    next => exact h
  | processAll =>
    rw [LoaderManager.step]
    split
    next => exact h
    next => exact h.at_manager m.loaders h.responding_mem
  | process loader =>
    rw [LoaderManager.step]
    split
    next => exact h.at_manager _ fun _ hother ↦ nomatch hother
    next => exact h
  | manager => exact h.advanceManager

end

theorem run_managed (actions : List (Action Loader)) : Managed (run actions) := by
  apply Runs.foldl_keeps
  · exact fun m action h ↦ h.step action
  · constructor
    · exact Finset.empty_subset _
    · exact fun _ _ hlock ↦ nomatch hlock
    · exact fun _ _ hwaiting ↦ nomatch hwaiting
    · exact fun _ _ _ hwaiting ↦ nomatch hwaiting
    · exact fun _ hmanager ↦ nomatch hmanager
    · exact Finset.empty_subset _
    · exact fun _ hmem ↦ absurd hmem List.not_mem_nil
    · exact fun _ hmem ↦ absurd hmem List.not_mem_nil
    · exact fun _ ↦ Nat.zero_le 1

/-- In every state that calls of `remove`, with and without waiting, and the manager thread can reach:
what is being removed is a loader of the set, at most one call for a loader has returned `true`, and then
no set holds the loader, no call waits for it, and the manager thread does not respond to it. -/
theorem removed_once (actions : List (Action Loader)) :
    (run actions).beingRemoved ⊆ (run actions).loaders ∧
      ∀ loader, (run actions).results.count (loader, true) ≤ 1 ∧
        ((loader, true) ∈ (run actions).results →
          loader ∉ (run actions).loaders ∧ loader ∉ (run actions).beingRemoved ∧
            (∀ caller, (run actions).waiting caller ≠ some loader) ∧
            (run actions).manager ≠ .responding loader) := by
  have h := run_managed actions
  refine ⟨h.subset, fun loader ↦ ⟨h.once loader, fun hremoved ↦ ?_⟩⟩
  have hgone := h.removed loader hremoved
  have hunmarked : loader ∉ (run actions).beingRemoved := fun hmem ↦ hgone (h.subset hmem)
  refine ⟨hgone, hunmarked, ?_, ?_⟩
  · exact fun caller hwaiting ↦ hunmarked (h.waiting_mem caller loader hwaiting)
  · exact fun hresponding ↦ hgone (h.responding_mem loader hresponding)

end LoaderManager

end DxApi.Session
