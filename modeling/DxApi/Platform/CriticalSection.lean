import DxApi.Lib.Serialized
import Mathlib.Data.List.Nodup
import Mathlib.Tactic.Ring

/-!
# Critical sections and atomic counters

`enter_spin` and `enter_yield` exchange the value of a section for 0 until they find another value there,
and `leave` exchanges it for 1. `atomic_counter` increments its counter inside such a section, with a load
and a store that are not atomic together.
-/

namespace DxApi.Platform

open Serialized Threads

/-- `critical_section`, which is a `waitable_atomic_uint`. -/
structure CriticalSection where
  value : UInt32
  deriving DecidableEq

namespace CriticalSection

def constructed : CriticalSection := ⟨1⟩

/-- `exchange`: what was stored before, and the section behind it. -/
def exchange (c : CriticalSection) (value : UInt32) : UInt32 × CriticalSection := (c.value, ⟨value⟩)

/-- One round of the loop of `exchange_spin` and `exchange_yield`: what it returns, if it returns. -/
def exchangeRound (c : CriticalSection) (value : UInt32) : Option UInt32 × CriticalSection :=
  let (tmp, c') := c.exchange value
  if value = tmp then (none, c') else (some tmp, c')

/-- One round of `enter_spin` and `enter_yield`. -/
def enterRound (c : CriticalSection) : Option UInt32 × CriticalSection := c.exchangeRound 0

def leave (c : CriticalSection) : CriticalSection := (c.exchange 1).2

theorem isSome_enterRound (c : CriticalSection) : c.enterRound.1.isSome = true ↔ c.value ≠ 0 := by
  rw [enterRound, exchangeRound, exchange]
  dsimp only
  by_cases hvalue : 0 = c.value
  · rw [if_pos hvalue]
    exact iff_of_false Bool.false_ne_true (not_not.mpr hvalue.symm)
  · rw [if_neg hvalue]
    exact iff_of_true rfl (Ne.symm hvalue)

/-- The section is zero behind a round, whether the round entered it or not. -/
theorem value_enterRound (c : CriticalSection) : c.enterRound.2.value = 0 := by
  rw [enterRound, exchangeRound, exchange]
  dsimp only
  split <;> rfl

/-- `yield_lock` and `spin_lock`: the constructor enters the section and the destructor leaves it. -/
def lock : Lock CriticalSection where
  tryEnter c := (c.enterRound.1.isSome, c.enterRound.2)
  leave := leave
  free c := c.value ≠ 0
  entered_iff := isSome_enterRound
  taken_tryEnter c := not_not.mpr (value_enterRound c)
  free_leave _ := by
    change (1 : UInt32) ≠ 0
    decide

theorem free_constructed : lock.free constructed := by
  change (1 : UInt32) ≠ 0
  decide

end CriticalSection

/-! ## Counters -/

namespace AtomicCounter

/-- `get` between `enter_spin` and `leave`: the load of `id_`, and the store of `++id_`. -/
def get : Code UInt64 UInt64 := .act id fun id_ ↦ .act (fun _ ↦ id_ + 1) fun _ ↦ .done (id_ + 1)

theorem run_get (id_ : UInt64) : get.run id_ = (id_ + 1, id_ + 1) := rfl

theorem resultsOf_get (calls : List Unit) (first : ℕ) :
    resultsOf (fun _ ↦ get) (UInt64.ofNat first) calls =
      (List.range' (first + 1) calls.length).map UInt64.ofNat := by
  induction calls generalizing first with
  | nil => rfl
  | cons call calls ih =>
    have hnext : UInt64.ofNat first + 1 = UInt64.ofNat (first + 1) := (UInt64.ofNat_add first 1).symm
    rw [resultsOf, run_get, hnext, ih, List.length_cons, List.range'_succ, List.map_cons]

/-- Numbers below `2 ^ 64` stay apart. -/
theorem nodup_ofNat {count : ℕ} (h : count < 2 ^ 64) : ((List.range' 1 count).map UInt64.ofNat).Nodup := by
  apply List.Nodup.map_on _ List.nodup_range'
  intro left hleft right hright heq
  have hleft' := List.mem_range'_1.mp hleft
  have hright' := List.mem_range'_1.mp hright
  have hvalues := congrArg UInt64.toNat heq
  rw [UInt64.toNat_ofNat', UInt64.toNat_ofNat', Nat.mod_eq_of_lt (by omega), Nat.mod_eq_of_lt (by omega)] at hvalues
  exact hvalues

variable {τ : Type} [DecidableEq τ]

/-- Any number of threads that call `get` on a counter that was just constructed. -/
def run (moves : List (Move τ Unit)) : Threads CriticalSection τ Unit UInt64 UInt64 :=
  (initial .constructed 0).runFrom CriticalSection.lock (fun _ ↦ get) moves

theorem sound_run (moves : List (Move τ Unit)) : Sound CriticalSection.lock (fun _ ↦ get) 0 (run moves) :=
  (sound_initial CriticalSection.free_constructed).runFrom moves

theorem results_run (moves : List (Move τ Unit)) :
    (run moves).returned.map Returned.result =
      (List.range' 1 (run moves).returned.length).map UInt64.ofNat := by
  have hresults := (sound_run moves).results
  have hnumbers := resultsOf_get (run moves).calls 0
  rw [calls, List.length_map] at hnumbers
  exact hresults.trans hnumbers

/-- In every interleaving of any number of threads one thread at most is inside the section, the numbers
that `get` returns are 1, 2, 3 and so on in the order in which the threads leave it, so none is returned
twice before the counter wraps around, and a thread that waits can return without the others. -/
theorem get_unique (moves : List (Move τ Unit)) :
    (∀ thread thread', ((run moves).place thread).Inside → ((run moves).place thread').Inside →
      thread = thread') ∧
    (run moves).returned.map Returned.result =
      (List.range' 1 (run moves).returned.length).map UInt64.ofNat ∧
    ((run moves).returned.length < 2 ^ 64 → ((run moves).returned.map Returned.result).Nodup) ∧
    ∀ thread, (run moves).place thread = .waiting () → ∃ more : List (Move τ Unit),
      (∀ move ∈ more, move.thread = thread ∨ ((run moves).place move.thread).Inside) ∧
      ∃ others result, (run (moves ++ more)).returned = (run moves).returned ++ others ++ [⟨thread, (), result⟩] := by
  refine ⟨(sound_run moves).alone, results_run moves, fun hfew ↦ ?_, fun thread hwaits ↦ ?_⟩
  · rw [results_run]
    exact nodup_ofNat hfew
  · obtain ⟨more, hown, others, result, hreturned⟩ := (sound_run moves).progress hwaits
    refine ⟨more, hown, others, result, ?_⟩
    rw [run, runFrom_append]
    exact hreturned

end AtomicCounter

end DxApi.Platform
