import Mathlib.Data.Int.Order.Basic

/-!
# Nested brackets

A bracket sequence is a list of openings and closings of brackets of some kinds. `replay` runs it on
the stack of the brackets that are open, the innermost one first, and fails where a closing is not of
the kind of the innermost open bracket. A sequence is nested if it can be run from the empty stack to
the empty stack.
-/

namespace DxApi.Brackets

variable {α : Type} [DecidableEq α]

inductive Bracket (α : Type)
  | opened (kind : α)
  | closed (kind : α)
  deriving DecidableEq, Repr

/-- A closing takes the innermost open bracket, if it is of the same kind. -/
def close (kind : α) : List α → Option (List α)
  | [] => none
  | innermost :: stack => if innermost = kind then some stack else none

def step (stack : List α) : Bracket α → Option (List α)
  | .opened kind => some (kind :: stack)
  | .closed kind => close kind stack

/-- The open brackets after a sequence that starts with `stack` open. -/
def replay (stack : List α) : List (Bracket α) → Option (List α)
  | [] => some stack
  | bracket :: brackets => (step stack bracket).bind fun stack ↦ replay stack brackets

/-- Every bracket that is opened is closed, by one of its own kind, in nested order. -/
def Nested (brackets : List (Bracket α)) : Prop := replay [] brackets = some []

instance (brackets : List (Bracket α)) : Decidable (Nested brackets) :=
  inferInstanceAs (Decidable (_ = _))

/-- How many brackets are opened, less how many are closed. -/
def excess : List (Bracket α) → ℤ
  | [] => 0
  | .opened _ :: brackets => excess brackets + 1
  | .closed _ :: brackets => excess brackets - 1

theorem replay_append (stack : List α) (first second : List (Bracket α)) :
    replay stack (first ++ second) = (replay stack first).bind fun stack ↦ replay stack second := by
  induction first generalizing stack with
  | nil => rfl
  | cons bracket first ih =>
    simp only [List.cons_append, replay]
    cases step stack bracket with
    | none => rfl
    | some stack => exact ih stack

omit [DecidableEq α] in
theorem excess_append (first second : List (Bracket α)) :
    excess (first ++ second) = excess first + excess second := by
  induction first with
  | nil => simp [excess]
  | cons bracket first ih =>
    cases bracket with
    | opened kind =>
      simp only [List.cons_append, excess, ih]
      omega
    | closed kind =>
      simp only [List.cons_append, excess, ih]
      omega

/-- A sequence that can be run changes the number of open brackets by its excess. -/
theorem length_of_replay {stack last : List α} {brackets : List (Bracket α)}
    (h : replay stack brackets = some last) : (last.length : ℤ) = stack.length + excess brackets := by
  induction brackets generalizing stack with
  | nil =>
    simp only [replay, Option.some.injEq] at h
    simp [excess, h]
  | cons bracket brackets ih =>
    cases bracket with
    | opened kind =>
      have hrest := ih h
      simp only [List.length_cons, excess] at hrest ⊢
      omega
    | closed kind =>
      cases stack with
      | nil => cases h
      | cons innermost stack =>
        simp only [replay, step, close] at h
        by_cases hkind : innermost = kind
        · rw [if_pos hkind] at h
          have hrest := ih h
          simp only [List.length_cons, excess] at hrest ⊢
          omega
        · rw [if_neg hkind] at h
          cases h

theorem Nested.excess_eq_zero {brackets : List (Bracket α)} (h : Nested brackets) :
    excess brackets = 0 := by
  have hlength := length_of_replay h
  simp only [List.length_nil] at hlength
  omega

end DxApi.Brackets
