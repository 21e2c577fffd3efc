import Mathlib.Data.PEquiv

/-!
# Adding a pair to a partial bijection

A partial bijection relates some elements of two types one to one. A pair of elements that are in no pair
yet can be added to it. A list has the pairs of a partial bijection when each of them is in it once.
-/

namespace DxApi.PartialBijection

variable {α β : Type} {pairs : α ≃. β} {a : α} {b : β}

section

variable [DecidableEq α] [DecidableEq β]

/-- The partial bijection with one more pair, of elements that are in none. -/
def insert (pairs : α ≃. β) (a : α) (b : β) (ha : pairs a = none) (hb : pairs.symm b = none) : α ≃. β where
  toFun a' := if a' = a then some b else pairs a'
  invFun b' := if b' = b then some a else pairs.symm b'
  inv a' b' := by
    have hinverse : pairs.symm b' = some a' ↔ pairs a' = some b' := PEquiv.eq_some_iff pairs
    have hfresh : pairs a' ≠ some b := by
      intro hpair
      rw [← PEquiv.eq_some_iff pairs, hb] at hpair
      cases hpair
    have hfresh' : pairs.symm b' ≠ some a := by
      intro hpair
      rw [PEquiv.eq_some_iff pairs, ha] at hpair
      cases hpair
    change (if b' = b then some a else pairs.symm b') = some a' ↔ (if a' = a then some b else pairs a') = some b'
    by_cases hsame : a' = a
    · subst hsame
      grind
    · by_cases hsame' : b' = b
      · subst hsame'
        grind
      · rw [if_neg hsame, if_neg hsame']
        exact hinverse

variable {ha : pairs a = none} {hb : pairs.symm b = none}

theorem insert_apply (a' : α) : insert pairs a b ha hb a' = if a' = a then some b else pairs a' := rfl

theorem insert_symm_apply (b' : β) :
    (insert pairs a b ha hb).symm b' = if b' = b then some a else pairs.symm b' := rfl

end

/-- The list has each pair once. -/
structure Lists (pairs : α ≃. β) (l : List (α × β)) : Prop where
  nodup : l.Nodup
  mem_iff : ∀ a b, (a, b) ∈ l ↔ pairs a = some b

theorem lists_bot : Lists (⊥ : α ≃. β) [] where
  nodup := List.nodup_nil
  mem_iff := by simp

theorem Lists.insert [DecidableEq α] [DecidableEq β] {l : List (α × β)} (h : Lists pairs l) (ha : pairs a = none) (hb : pairs.symm b = none) :
    Lists (PartialBijection.insert pairs a b ha hb) ((a, b) :: l) := by
  constructor
  · refine List.nodup_cons.mpr ⟨?_, h.nodup⟩
    rw [h.mem_iff, ha]
    exact nofun
  · intro a' b'
    rw [List.mem_cons, h.mem_iff, insert_apply, Prod.mk.injEq]
    by_cases hsame : a' = a
    · subst hsame
      grind
    · simp [hsame]

/-- Two lists of the same pairs are of the same length. -/
theorem Lists.length_eq {l l' : List (α × β)} (h : Lists pairs l) (h' : Lists pairs l') : l.length = l'.length := by
  refine List.Perm.length_eq ((List.perm_ext_iff_of_nodup h.nodup h'.nodup).mpr ?_)
  rintro ⟨a, b⟩
  rw [h.mem_iff, h'.mem_iff]

end DxApi.PartialBijection
