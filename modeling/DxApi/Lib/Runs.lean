import Mathlib.Data.List.Induction

/-!
# Runs of a step function

A run is a list of actions, taken one after the other from a first state. What each action preserves
holds of every run. When an action keeps `good` exactly if `admits` holds of it, the states of a run
are all good exactly if each of its actions is admitted where it is taken.
-/

namespace DxApi.Runs

variable {σ α : Type} {step : σ → α → σ} {sound good : σ → Prop} {admits : σ → α → Prop} {s : σ}

theorem foldl_concat (done : List α) (action : α) :
    (done ++ [action]).foldl step s = step (done.foldl step s) action := List.foldl_append

/-- What each step preserves, a run preserves. -/
theorem foldl_keeps (hkeep : ∀ s action, sound s → sound (step s action)) (hs : sound s)
    (actions : List α) : sound (actions.foldl step s) := by
  induction actions generalizing s with
  | nil => exact hs
  | cons action rest ih => exact ih (hkeep s action hs)

/-- A state is good after each action of a run if and only if each action is admitted. -/
theorem throughout_iff (sound : σ → Prop) (hkeep : ∀ s action, sound s → sound (step s action))
    (hstep : ∀ s action, sound s → good s → (good (step s action) ↔ admits s action))
    (hs : sound s) (hgood : good s) (actions : List α) :
    (∀ done, done <+: actions → good (done.foldl step s)) ↔
      ∀ done action, done ++ [action] <+: actions → admits (done.foldl step s) action := by
  have hshorter (done : List α) (action : α) : done <+: done ++ [action] := ⟨[action], rfl⟩
  constructor
  · intro hall done action hmem
    have hdone := hall done ((hshorter done action).trans hmem)
    have hnext := hall (done ++ [action]) hmem
    rw [foldl_concat] at hnext
    exact (hstep _ action (foldl_keeps hkeep hs done) hdone).mp hnext
  · intro hadmits done
    induction done using List.reverseRecOn with
    | nil => exact fun _ ↦ hgood
    | append_singleton done action ih =>
      intro hmem
      have hdone := ih ((hshorter done action).trans hmem)
      rw [foldl_concat]
      exact (hstep _ action (foldl_keeps hkeep hs done) hdone).mpr (hadmits done action hmem)

/-- Each action of a run is admitted where it is taken, as a recursion that can be evaluated. -/
def Admitted (step : σ → α → σ) (admits : σ → α → Prop) : σ → List α → Prop
  | _, [] => True
  | s, action :: rest => admits s action ∧ Admitted step admits (step s action) rest

instance decidableAdmitted [∀ s action, Decidable (admits s action)] :
    (s : σ) → (actions : List α) → Decidable (Admitted step admits s actions)
  | _, [] => instDecidableTrue
  | s, action :: rest => @instDecidableAnd _ _ _ (decidableAdmitted (step s action) rest)

theorem Admitted.of_concat {actions : List α} (h : Admitted step admits s actions) {done : List α} {action : α}
    (hdone : done ++ [action] <+: actions) : admits (done.foldl step s) action := by
  induction done generalizing s actions with
  | nil =>
    obtain ⟨rest, rfl⟩ := hdone
    exact h.1
  | cons first done ih =>
    obtain ⟨rest, rfl⟩ := hdone
    exact ih h.2 ⟨rest, rfl⟩

end DxApi.Runs
