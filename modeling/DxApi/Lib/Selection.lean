import Mathlib.Data.List.Induction
import Mathlib.Data.List.Nodup
import Mathlib.Data.Nat.Notation

/-!
# Selecting elements to the front

The elements of a list that are asked for, by key and one after the other, are swapped to its front. With
distinct keys they stand there in the order in which they were first asked for, and behind them the others.
-/

namespace DxApi.Selection

variable {α κ : Type}

/-- `std::swap` of the elements at two places. -/
def swapAt (l : List α) (i j : ℕ) : List α :=
  match l[i]?, l[j]? with
  | some x, some y => (l.set i y).set j x
  | _, _ => l

/-- The first element with the key, from a place on, is marked and swapped to that place. -/
def select [DecidableEq κ] (key : α → κ) (mark : α → α) (state : ℕ × List α) (k : κ) : ℕ × List α :=
  match (state.2.drop state.1).findIdx? fun x ↦ key x = k with
  | none => state
  | some j => (state.1 + 1, swapAt (state.2.modify (state.1 + j) mark) (state.1 + j) state.1)

/-- Each key in turn, behind what was selected before. -/
def selectAll [DecidableEq κ] (key : α → κ) (mark : α → α) (ks : List κ) (l : List α) : ℕ × List α :=
  ks.foldl (select key mark) (0, l)

/-- The keys that are listed, each where it is asked for first. -/
def firstAppearances [DecidableEq κ] (listed ks : List κ) : List κ := (ks.filter (· ∈ listed)).eraseDups

section

variable {front before after : List α} {x : α}

/-- The element at a place is changed. -/
theorem modify_middle (before after : List α) (x : α) (f : α → α) :
    (before ++ x :: after).modify before.length f = before ++ f x :: after := by
  induction before with
  | nil => rfl
  | cons y before ih =>
    rw [List.cons_append, List.length_cons, List.modify_cons, if_neg (Nat.succ_ne_zero _), Nat.add_sub_cancel, ih]
    rfl

/-- What is swapped to the place leaves the others behind it. -/
theorem swapAt_front (front before after : List α) (x : α) :
    ∃ rest, swapAt (front ++ (before ++ x :: after)) (front.length + before.length) front.length = front ++ x :: rest ∧
      rest.Perm (before ++ after) := by
  have hx : (front ++ (before ++ x :: after))[front.length + before.length]? = some x := by
    simp
  cases before with
  | nil =>
    refine ⟨after, ?_, .refl _⟩
    simp [swapAt]
  | cons y before =>
    refine ⟨before ++ y :: after, ?_, List.perm_middle⟩
    have hy : (front ++ (y :: before ++ x :: after))[front.length]? = some y := by
      simp
    simp only [swapAt, hx, hy]
    simp

variable [DecidableEq κ] {key : α → κ} {mark : α → α} {rest : List α} {k : κ}

/-- A key that no element behind the place has. -/
theorem select_of_none (hnone : ∀ c ∈ rest, key c ≠ k) :
    select key mark (front.length, front ++ rest) k = (front.length, front ++ rest) := by
  have hfind : (rest.findIdx? fun x ↦ key x = k) = none := by
    rw [List.findIdx?_eq_none_iff]
    simpa using hnone
  simp only [select, List.drop_left, hfind]

/-- A key that an element behind the place has. -/
theorem select_of_some (hbefore : ∀ c ∈ before, key c ≠ key x) :
    ∃ rest, select key mark (front.length, front ++ (before ++ x :: after)) (key x) =
        ((front ++ [mark x]).length, (front ++ [mark x]) ++ rest) ∧
      rest.Perm (before ++ after) := by
  have hfind : ((before ++ x :: after).findIdx? fun c ↦ key c = key x) = some before.length := by
    rw [List.findIdx?_append, List.findIdx?_eq_none_iff.mpr (by simpa using hbefore)]
    simp [List.findIdx?_cons]
  have hmark : (front ++ (before ++ x :: after)).modify (front.length + before.length) mark =
      front ++ (before ++ mark x :: after) := by
    have h := modify_middle (front ++ before) after x mark
    rwa [List.length_append, List.append_assoc, List.append_assoc] at h
  obtain ⟨rest, hswap, hperm⟩ := swapAt_front front before after (mark x)
  refine ⟨rest, ?_, hperm⟩
  simp only [select, List.drop_left, hfind, hmark, hswap, List.length_append, List.length_singleton,
    List.append_assoc, List.singleton_append]

/-- A key that was not asked for before is the last one to appear, if it is listed. -/
theorem firstAppearances_concat (listed ks : List κ) (k : κ) :
    firstAppearances listed (ks ++ [k]) =
      firstAppearances listed ks ++ if k ∈ listed ∧ k ∉ ks then [k] else [] := by
  rw [firstAppearances, List.filter_append, List.eraseDups_append]
  by_cases hlisted : k ∈ listed
  · by_cases hk : k ∈ ks <;> simp [hlisted, hk, firstAppearances, List.removeAll, List.eraseDups_cons]
  · simp [hlisted, firstAppearances, List.removeAll]

theorem mem_firstAppearances {listed ks : List κ} : k ∈ firstAppearances listed ks ↔ k ∈ listed ∧ k ∈ ks := by
  rw [firstAppearances, List.mem_eraseDups, List.mem_filter, decide_eq_true_eq, and_comm]

omit [DecidableEq κ] in
@[simp] theorem swapAt_length (l : List α) (i j : ℕ) : (swapAt l i j).length = l.length := by
  unfold swapAt
  split
  · rw [List.length_set, List.length_set]
  · rfl

@[simp] theorem select_length (key : α → κ) (mark : α → α) (state : ℕ × List α) (k : κ) :
    (select key mark state k).2.length = state.2.length := by
  unfold select
  split
  · rfl
  · rw [swapAt_length, List.length_modify]

/-- No element is lost. -/
theorem selectAll_length (key : α → κ) (mark : α → α) (ks : List κ) (l : List α) :
    (selectAll key mark ks l).2.length = l.length := by
  induction ks using List.reverseRecOn with
  | nil => rfl
  | append_singleton ks k ih =>
    calc
      (selectAll key mark (ks ++ [k]) l).2.length = (select key mark (selectAll key mark ks l) k).2.length := by
        rw [selectAll, List.foldl_append]
        rfl
      _ = (selectAll key mark ks l).2.length := select_length key mark _ k
      _ = l.length := ih

/-- What was selected, by the keys that were asked for. -/
structure Selected (key : α → κ) (mark : α → α) (ks : List κ) (l : List α) (state : ℕ × List α) (front rest : List α) :
    Prop where
  state_eq : state = (front.length, front.map mark ++ rest)
  perm : (front ++ rest).Perm l
  keys_eq : front.map key = firstAppearances (l.map key) ks
  rest_key : ∀ c ∈ rest, key c ∉ ks

section

variable {ks : List κ} {l : List α} {state : ℕ × List α}

/-- An element that was not selected before is selected, and no other one has its key. -/
theorem Selected.step_of_mem (h : Selected key mark ks l state front rest) (hdistinct : (l.map key).Nodup)
    (hx : x ∈ rest) :
    ∃ rest', Selected key mark (ks ++ [key x]) l (select key mark state (key x)) (front ++ [x]) rest' := by
  have hlisted : key x ∈ l.map key := List.mem_map_of_mem (h.perm.subset (List.mem_append_right _ hx))
  have hnew : key x ∉ ks := h.rest_key x hx
  obtain ⟨before, after, rfl⟩ := List.append_of_mem hx
  have hother (c : α) (hc : c ∈ before ++ after) : key c ≠ key x := by
    have hkeys : ((front ++ (before ++ x :: after)).map key).Nodup := (h.perm.map key).nodup_iff.mpr hdistinct
    have hrest : ((before ++ x :: after).map key).Nodup := hkeys.sublist ((List.sublist_append_right _ _).map key)
    have hfirst := ((List.perm_middle (a := x)).map key).nodup_iff.mp hrest
    exact fun hsame ↦ (List.nodup_cons.mp hfirst).1 (hsame ▸ List.mem_map_of_mem hc)
  have hbefore : ∀ c ∈ before, key c ≠ key x := fun c hc ↦ hother c (List.mem_append_left _ hc)
  obtain ⟨rest, hselect, hperm⟩ := @select_of_some _ _ (front.map mark) before after x _ key mark hbefore
  rw [List.length_map] at hselect
  refine ⟨rest, ?_, ?_, ?_, ?_⟩
  · rw [h.state_eq, hselect]
    simp
  · calc
      front ++ [x] ++ rest = front ++ x :: rest := by simp
      List.Perm _ (front ++ x :: (before ++ after)) := (hperm.cons x).append_left front
      List.Perm _ (front ++ (before ++ x :: after)) := List.perm_middle.symm.append_left front
      List.Perm _ l := h.perm
  · calc
      (front ++ [x]).map key = front.map key ++ [key x] := List.map_append
      _ = firstAppearances (l.map key) (ks ++ [key x]) := by
        rw [firstAppearances_concat, if_pos ⟨hlisted, hnew⟩, h.keys_eq]
  · intro c hc
    have hmem := hperm.subset hc
    have hrest : c ∈ before ++ x :: after :=
      List.perm_middle.symm.subset (List.mem_cons_of_mem x hmem)
    rw [List.mem_append, List.mem_singleton, not_or]
    exact ⟨h.rest_key c hrest, hother c hmem⟩

/-- A key that no element behind the selected ones has was asked for before, or is not listed. -/
theorem Selected.step_of_not_mem (h : Selected key mark ks l state front rest) (hnone : ∀ c ∈ rest, key c ≠ k) :
    Selected key mark (ks ++ [k]) l (select key mark state k) front rest := by
  refine ⟨?_, h.perm, ?_, ?_⟩
  · have hselect := @select_of_none _ _ (front.map mark) _ key mark rest k hnone
    rw [List.length_map] at hselect
    rw [h.state_eq, hselect]
  · rw [firstAppearances_concat, if_neg, List.append_nil, h.keys_eq]
    rintro ⟨hlisted, hnew⟩
    obtain ⟨c, hc, hkey⟩ := List.mem_map.mp hlisted
    rcases List.mem_append.mp (h.perm.symm.subset hc) with hin | hin
    · have hfront : key c ∈ front.map key := List.mem_map_of_mem hin
      rw [h.keys_eq, mem_firstAppearances, hkey] at hfront
      exact hnew hfront.2
    · exact hnone c hin hkey
  · intro c hc
    rw [List.mem_append, List.mem_singleton, not_or]
    exact ⟨h.rest_key c hc, hnone c hc⟩

theorem Selected.step (h : Selected key mark ks l state front rest) (hdistinct : (l.map key).Nodup) (k : κ) :
    ∃ front' rest', Selected key mark (ks ++ [k]) l (select key mark state k) front' rest' := by
  by_cases hk : ∃ x ∈ rest, key x = k
  · obtain ⟨x, hx, rfl⟩ := hk
    exact ⟨front ++ [x], h.step_of_mem hdistinct hx⟩
  · simp only [not_exists, not_and] at hk
    exact ⟨front, rest, h.step_of_not_mem hk⟩

end

/-- With distinct keys the elements that are asked for are selected in the order of their first appearance. -/
theorem selectAll_spec {l : List α} (hdistinct : (l.map key).Nodup) (ks : List κ) :
    ∃ front rest, Selected key mark ks l (selectAll key mark ks l) front rest := by
  induction ks using List.reverseRecOn with
  | nil => exact ⟨[], l, rfl, .refl _, rfl, fun _ _ ↦ List.not_mem_nil⟩
  | append_singleton ks k ih =>
    obtain ⟨front, rest, h⟩ := ih
    rw [selectAll, List.foldl_append]
    exact h.step hdistinct k

end

end DxApi.Selection
