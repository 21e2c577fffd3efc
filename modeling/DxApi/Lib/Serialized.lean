import DxApi.Lib.Exec
import DxApi.Lib.Runs
import Mathlib.Logic.Function.Basic

/-!
# Sections under a lock

Threads call operations on shared data. An operation is code that changes the data in atomic steps; a
thread runs it between the moment it finds the lock free and the moment it leaves the lock, and the
steps of all threads interleave. The data and the results are those of the finished operations, run one
after the other in the order in which the lock was left.
-/

namespace DxApi.Serialized

open Exec Function

variable {σ ρ ε α Λ τ κ : Type}

/-! ## Code -/

/-- A piece of code: what follows an atomic step may depend on the data that the step found. -/
inductive Code (σ ρ : Type)
  | done (result : ρ)
  | act (change : σ → σ) (next : σ → Code σ ρ)

namespace Code

/-- The code run without an interruption. -/
def run : Code σ ρ → σ → ρ × σ
  | done result, s => (result, s)
  | act change next, s => (next s).run (change s)

/-- A program as one step; behind an exception nothing is run. -/
def atomic (program : EStateM ε σ α) (next : α → Code σ (Except ε ρ)) : Code σ (Except ε ρ) :=
  act (finalState program) fun s ↦
    match program s with
    | .ok value _ => next value
    | .error error _ => done (.error error)

/-- What a program returns or throws, and the state it leaves. -/
def outcome (program : EStateM ε σ ρ) (s : σ) : Except ε ρ × σ :=
  match program s with
  | .ok value s' => (.ok value, s')
  | .error error s' => (.error error, s')

/-- Run without an interruption, the code is the program. -/
def Runs (code : Code σ (Except ε ρ)) (program : EStateM ε σ ρ) : Prop := ∀ s, code.run s = outcome program s

theorem runs_done (value : ρ) : (done (.ok value) : Code σ (Except ε ρ)).Runs (pure value) := fun _ ↦ rfl

theorem runs_atomic {program : EStateM ε σ α} {next : α → Code σ (Except ε ρ)} {rest : α → EStateM ε σ ρ}
    (h : ∀ value, (next value).Runs (rest value)) : (atomic program next).Runs (program >>= rest) := by
  intro s
  rw [atomic, run, finalState, outcome]
  cases hrun : program s with
  | ok value s' =>
    rw [run_bind_of_ok hrun]
    exact h value s'
  | error error s' =>
    rw [run_bind_of_error hrun]
    rfl

/-- Every step leads from a state to a related one. -/
def Follows (rel : σ → σ → Prop) : Code σ ρ → Prop
  | done _ => True
  | act change next => ∀ s, rel s (change s) ∧ (next s).Follows rel

variable {rel : σ → σ → Prop}

theorem follows_atomic {program : EStateM ε σ α} {next : α → Code σ (Except ε ρ)}
    (hprogram : ∀ s, rel s (finalState program s)) (hnext : ∀ value, (next value).Follows rel) :
    (atomic program next).Follows rel := by
  intro s
  refine ⟨hprogram s, ?_⟩
  dsimp only
  cases program s with
  | ok value s' => exact hnext value
  | error error s' => exact trivial

theorem Follows.run [Std.Refl rel] [IsTrans σ rel] {code : Code σ ρ} (h : code.Follows rel) (s : σ) :
    rel s (code.run s).2 := by
  induction code generalizing s with
  | done result => exact refl_of rel s
  | act change next ih =>
    obtain ⟨hchange, hnext⟩ := h s
    exact trans_of rel hchange (ih s hnext (change s))

end Code

/-! ## Operations one after the other -/

section

variable (body : κ → Code σ ρ)

def dataAfter (first : σ) (calls : List κ) : σ := calls.foldl (fun s call ↦ ((body call).run s).2) first

def resultsOf : σ → List κ → List ρ
  | _, [] => []
  | s, call :: calls => ((body call).run s).1 :: resultsOf ((body call).run s).2 calls

theorem dataAfter_concat (first : σ) (calls : List κ) (call : κ) :
    dataAfter body first (calls ++ [call]) = ((body call).run (dataAfter body first calls)).2 :=
  List.foldl_append

theorem resultsOf_concat (first : σ) (calls : List κ) (call : κ) :
    resultsOf body first (calls ++ [call]) =
      resultsOf body first calls ++ [((body call).run (dataAfter body first calls)).1] := by
  induction calls generalizing first with
  | nil => rfl
  | cons head calls ih => exact congrArg (List.cons _) (ih _)

end

/-! ## Threads -/

/-- A lock that a thread tries to enter again and again. -/
structure Lock (Λ : Type) where
  tryEnter : Λ → Bool × Λ
  leave : Λ → Λ
  free : Λ → Prop
  entered_iff : ∀ lock, (tryEnter lock).1 = true ↔ free lock
  taken_tryEnter : ∀ lock, ¬ free (tryEnter lock).2
  free_leave : ∀ lock, free (leave lock)

/-- Where a thread is: outside, in the loop in front of the lock, or inside with code left to run. -/
inductive Place (κ σ ρ : Type)
  | outside
  | waiting (call : κ)
  | inside (call : κ) (code : Code σ ρ)

def Place.Inside : Place κ σ ρ → Prop
  | inside _ _ => True
  | _ => False

/-- A call that has returned. -/
structure Returned (τ κ ρ : Type) where
  thread : τ
  call : κ
  result : ρ
  deriving DecidableEq

structure Threads (Λ τ κ σ ρ : Type) where
  lock : Λ
  data : σ
  place : τ → Place κ σ ρ
  /-- The calls that have returned, in the order in which they left the lock. -/
  returned : List (Returned τ κ ρ)

/-- A step of a thread. -/
inductive Move (τ κ : Type)
  | call (thread : τ) (call : κ)
  | tryEnter (thread : τ)
  | work (thread : τ)
  | leave (thread : τ)

def Move.thread : Move τ κ → τ
  | call thread _ => thread
  | tryEnter thread => thread
  | work thread => thread
  | leave thread => thread

namespace Threads

variable [DecidableEq τ] (L : Lock Λ) (body : κ → Code σ ρ)

def moveTo (s : Threads Λ τ κ σ ρ) (thread : τ) (place : Place κ σ ρ) : Threads Λ τ κ σ ρ :=
  { s with place := update s.place thread place }

/-- A step that cannot be taken changes nothing. -/
def step (s : Threads Λ τ κ σ ρ) : Move τ κ → Threads Λ τ κ σ ρ
  | .call thread call =>
    match s.place thread with
    | .outside => s.moveTo thread (.waiting call)
    | _ => s
  | .tryEnter thread =>
    match s.place thread with
    | .waiting call =>
      if (L.tryEnter s.lock).1 then
        { s.moveTo thread (.inside call (body call)) with lock := (L.tryEnter s.lock).2 }
      else { s with lock := (L.tryEnter s.lock).2 }
    | _ => s
  | .work thread =>
    match s.place thread with
    | .inside call (.act change next) =>
      { s.moveTo thread (.inside call (next s.data)) with data := change s.data }
    | _ => s
  | .leave thread =>
    match s.place thread with
    | .inside call (.done result) =>
      { s.moveTo thread .outside with
        lock := L.leave s.lock
        returned := s.returned ++ [⟨thread, call, result⟩] }
    | _ => s

/-- Nobody has called anything. -/
def initial (lock : Λ) (first : σ) : Threads Λ τ κ σ ρ := ⟨lock, first, fun _ ↦ .outside, []⟩

def runFrom (s : Threads Λ τ κ σ ρ) (moves : List (Move τ κ)) : Threads Λ τ κ σ ρ := moves.foldl (step L body) s

/-- The calls that have returned. -/
def calls (s : Threads Λ τ κ σ ρ) : List κ := s.returned.map Returned.call

/-- The lock is taken while a thread is inside, by that thread alone, and what is left of its code does
from the present data what the whole does behind the calls that have returned. -/
structure Sound (first : σ) (s : Threads Λ τ κ σ ρ) : Prop where
  free_iff : L.free s.lock ↔ ∀ thread, ¬ (s.place thread).Inside
  alone : ∀ thread thread', (s.place thread).Inside → (s.place thread').Inside → thread = thread'
  results : s.returned.map Returned.result = resultsOf body first s.calls
  quiet : (∀ thread, ¬ (s.place thread).Inside) → s.data = dataAfter body first s.calls
  rest : ∀ thread call code, s.place thread = .inside call code →
    code.run s.data = (body call).run (dataAfter body first s.calls)

variable {L body} {first : σ} {s : Threads Λ τ κ σ ρ}

@[simp]
theorem moveTo_self (s : Threads Λ τ κ σ ρ) (thread : τ) (place : Place κ σ ρ) :
    (s.moveTo thread place).place thread = place := update_self ..

@[simp]
theorem moveTo_of_ne (s : Threads Λ τ κ σ ρ) {thread other : τ} (place : Place κ σ ρ) (h : other ≠ thread) :
    (s.moveTo thread place).place other = s.place other := update_of_ne h ..

omit [DecidableEq τ] in
theorem sound_initial {lock : Λ} (h : L.free lock) : Sound L body first (initial lock first : Threads Λ τ κ σ ρ) where
  free_iff := iff_of_true h fun _ ↦ id
  alone _ _ h := h.elim
  results := rfl
  quiet _ := rfl
  rest _ _ _ h := by cases h

/-- A thread that is not inside, before and after, moves. -/
theorem Sound.moveTo (h : Sound L body first s) {thread : τ} {place : Place κ σ ρ}
    (hbefore : ¬ (s.place thread).Inside) (hafter : ¬ place.Inside) :
    Sound L body first (s.moveTo thread place) := by
  have hsame (other : τ) : ((s.moveTo thread place).place other).Inside ↔ (s.place other).Inside := by
    by_cases hother : other = thread
    · rw [hother, moveTo_self]
      exact iff_of_false hafter hbefore
    · rw [moveTo_of_ne s place hother]
  constructor
  · rw [forall_congr' fun other ↦ not_congr (hsame other)]
    exact h.free_iff
  · intro left right
    rw [hsame, hsame]
    exact h.alone left right
  · exact h.results
  · rw [forall_congr' fun other ↦ not_congr (hsame other)]
    exact h.quiet
  · intro other call code hinside
    by_cases hother : other = thread
    · rw [hother, moveTo_self] at hinside
      rw [hinside] at hafter
      exact (hafter trivial).elim
    · rw [moveTo_of_ne s place hother] at hinside
      exact h.rest other call code hinside

omit [DecidableEq τ] in
/-- An attempt that fails leaves the lock taken. -/
theorem Sound.tryAgain (h : Sound L body first s) (htaken : ¬ L.free s.lock) {lock : Λ} (hlock : ¬ L.free lock) :
    Sound L body first { s with lock := lock } where
  free_iff := iff_of_false hlock fun hnone ↦ htaken (h.free_iff.mpr hnone)
  alone := h.alone
  results := h.results
  quiet := h.quiet
  rest := h.rest

/-- Where the threads are when one of them is inside, with any code. -/
theorem inside_update_iff {place : τ → Place κ σ ρ} {thread : τ} {call : κ} {code : Code σ ρ}
    (hothers : ∀ other, other ≠ thread → ¬ (place other).Inside) (other : τ) :
    (update place thread (.inside call code) other).Inside ↔ other = thread := by
  by_cases hother : other = thread
  · rw [hother, update_self]
    exact iff_of_true trivial rfl
  · rw [update_of_ne hother]
    exact iff_of_false (hothers other hother) hother

/-- One thread is inside and what is left of its code leads where the whole call leads. -/
theorem sound_of_inside (hresults : s.returned.map Returned.result = resultsOf body first s.calls)
    {thread : τ} (hothers : ∀ other, other ≠ thread → ¬ (s.place other).Inside) {lock : Λ} (hlock : ¬ L.free lock)
    {call : κ} {code : Code σ ρ} {data : σ}
    (hrest : code.run data = (body call).run (dataAfter body first s.calls)) :
    Sound L body first { s.moveTo thread (.inside call code) with lock := lock, data := data } where
  free_iff := by
    apply iff_of_false hlock
    intro hnone
    exact hnone thread ((inside_update_iff hothers thread).mpr rfl)
  alone left right hleft hright := by
    have hleft' := (inside_update_iff hothers left).mp hleft
    have hright' := (inside_update_iff hothers right).mp hright
    rw [hleft', hright']
  results := hresults
  quiet hnone := (hnone thread ((inside_update_iff hothers thread).mpr rfl)).elim
  rest other call' code' hinside := by
    have hother : other = thread := by
      apply (@inside_update_iff _ _ _ _ _ _ _ call code hothers other).mp
      rw [show update s.place thread (.inside call code) other = .inside call' code' from hinside]
      exact trivial
    have hsame : update s.place thread (.inside call code) other = .inside call' code' := hinside
    rw [hother, update_self] at hsame
    cases hsame
    exact hrest

omit [DecidableEq τ] in
theorem Sound.others (h : Sound L body first s) {thread : τ} (hinside : (s.place thread).Inside) (other : τ)
    (hother : other ≠ thread) : ¬ (s.place other).Inside :=
  fun hin ↦ hother (h.alone other thread hin hinside)

theorem Sound.enter (h : Sound L body first s) {thread : τ} {call : κ} (hfree : L.free s.lock) :
    Sound L body first { s.moveTo thread (.inside call (body call)) with lock := (L.tryEnter s.lock).2 } := by
  have hnone := h.free_iff.mp hfree
  apply sound_of_inside h.results (fun other _ ↦ hnone other) (L.taken_tryEnter s.lock)
  exact congrArg (body call).run (h.quiet hnone)

theorem Sound.work (h : Sound L body first s) {thread : τ} {call : κ} {change : σ → σ} {next : σ → Code σ ρ}
    (hinside : s.place thread = .inside call (.act change next)) :
    Sound L body first { s.moveTo thread (.inside call (next s.data)) with data := change s.data } := by
  have hin : (s.place thread).Inside := by
    rw [hinside]
    exact trivial
  have hlock : ¬ L.free s.lock := fun hfree ↦ h.free_iff.mp hfree thread hin
  exact sound_of_inside h.results (h.others hin) hlock (h.rest thread call _ hinside)

theorem Sound.leave (h : Sound L body first s) {thread : τ} {call : κ} {result : ρ}
    (hinside : s.place thread = .inside call (.done result)) :
    Sound L body first { s.moveTo thread .outside with
      lock := L.leave s.lock, returned := s.returned ++ [⟨thread, call, result⟩] } := by
  have hin : (s.place thread).Inside := by
    rw [hinside]
    exact trivial
  have hnone (other : τ) : ¬ (update s.place thread .outside other).Inside := by
    by_cases hother : other = thread
    · rw [hother, update_self]
      exact id
    · rw [update_of_ne hother]
      exact h.others hin other hother
  have hrun : (result, s.data) = (body call).run (dataAfter body first s.calls) := h.rest thread call _ hinside
  have hcalls : (s.returned ++ [Returned.mk thread call result]).map Returned.call = s.calls ++ [call] :=
    List.map_append
  constructor
  · exact iff_of_true (L.free_leave s.lock) hnone
  · exact fun left _ hleft ↦ (hnone left hleft).elim
  · change (s.returned ++ [Returned.mk thread call result]).map Returned.result = resultsOf body first (List.map _ _)
    rw [hcalls, resultsOf_concat, ← hrun, ← h.results, List.map_append]
    rfl
  · intro _
    change s.data = dataAfter body first (List.map _ _)
    rw [hcalls, dataAfter_concat, ← hrun]
  · intro other call' code' hplace
    have hout := hnone other
    rw [show update s.place thread .outside other = .inside call' code' from hplace] at hout
    exact (hout trivial).elim

theorem Sound.step (h : Sound L body first s) (move : Move τ κ) : Sound L body first (s.step L body move) := by
  cases move with
  | call thread call =>
    rw [Threads.step]
    split
    · rename_i hplace
      apply h.moveTo
      · rw [hplace]
        exact id
      · exact id
    · exact h
  | tryEnter thread =>
    rw [Threads.step]
    split
    · rename_i call hplace
      by_cases hentered : (L.tryEnter s.lock).1 = true
      · rw [if_pos hentered]
        exact h.enter ((L.entered_iff s.lock).mp hentered)
      · rw [if_neg hentered]
        exact h.tryAgain (mt (L.entered_iff s.lock).mpr hentered) (L.taken_tryEnter s.lock)
    · exact h
  | work thread =>
    rw [Threads.step]
    split
    · rename_i call change next hplace
      exact h.work hplace
    · exact h
  | leave thread =>
    rw [Threads.step]
    split
    · rename_i call result hplace
      exact h.leave hplace
    · exact h

theorem Sound.runFrom (h : Sound L body first s) (moves : List (Move τ κ)) :
    Sound L body first (s.runFrom L body moves) :=
  Runs.foldl_keeps (fun _ move hs ↦ hs.step move) h moves

omit [DecidableEq τ] in
/-- Whatever the interleaving, the results of the calls that have returned are those of the same calls one
after the other, and so is the data while nobody is inside. -/
theorem Sound.serialized (h : Sound L body first s) :
    s.returned.map Returned.result = resultsOf body first s.calls ∧
      (L.free s.lock → s.data = dataAfter body first s.calls) :=
  ⟨h.results, fun hfree ↦ h.quiet (h.free_iff.mp hfree)⟩

/-! ## Progress -/

theorem runFrom_append (moves more : List (Move τ κ)) :
    s.runFrom L body (moves ++ more) = (s.runFrom L body moves).runFrom L body more := List.foldl_append

variable (L body) in
/-- A thread that is inside can go on until it has returned. -/
theorem exists_runFrom_inside {thread : τ} {call : κ} {code : Code σ ρ} (h : s.place thread = .inside call code) :
    ∃ moves : List (Move τ κ), (∀ move ∈ moves, move.thread = thread) ∧
      s.runFrom L body moves =
        { lock := L.leave s.lock
          data := (code.run s.data).2
          place := update s.place thread .outside
          returned := s.returned ++ [⟨thread, call, (code.run s.data).1⟩] } := by
  induction code generalizing s with
  | done result =>
    refine ⟨[.leave thread], fun move hmem ↦ ?_, ?_⟩
    · rw [List.mem_singleton.mp hmem]
      rfl
    · rw [runFrom, List.foldl_cons, List.foldl_nil, step, h]
      rfl
  | act change next ih =>
    have hstep : s.step L body (.work thread) =
        { s.moveTo thread (.inside call (next s.data)) with data := change s.data } := by
      rw [step, h]
    obtain ⟨moves, hown, hrun⟩ :=
      ih s.data (s := { s.moveTo thread (.inside call (next s.data)) with data := change s.data })
        (moveTo_self s thread _)
    refine ⟨.work thread :: moves, List.forall_mem_cons.mpr ⟨rfl, hown⟩, ?_⟩
    rw [runFrom, List.foldl_cons, hstep]
    rw [runFrom] at hrun
    rw [hrun, moveTo, update_idem]
    rfl

variable (L body) in
/-- A thread that waits while the lock is free can go on until it has returned. -/
theorem exists_runFrom_waiting {thread : τ} {call : κ} (hfree : L.free s.lock) (h : s.place thread = .waiting call) :
    ∃ moves : List (Move τ κ), (∀ move ∈ moves, move.thread = thread) ∧
      ∃ result, (s.runFrom L body moves).returned = s.returned ++ [⟨thread, call, result⟩] := by
  have hstep : s.step L body (.tryEnter thread) =
      { s.moveTo thread (.inside call (body call)) with lock := (L.tryEnter s.lock).2 } := by
    rw [step, h]
    dsimp only
    rw [if_pos ((L.entered_iff s.lock).mpr hfree)]
  obtain ⟨moves, hown, hrun⟩ := exists_runFrom_inside L body
    (s := { s.moveTo thread (.inside call (body call)) with lock := (L.tryEnter s.lock).2 })
    (moveTo_self s thread _)
  refine ⟨.tryEnter thread :: moves, List.forall_mem_cons.mpr ⟨rfl, hown⟩, ((body call).run s.data).1, ?_⟩
  rw [runFrom, List.foldl_cons, hstep]
  rw [runFrom] at hrun
  rw [hrun]
  rfl

/-- A call that waits can return: the thread that is inside, if there is one, goes on until it has left the
lock, and no other thread is needed. -/
theorem Sound.progress (h : Sound L body first s) {thread : τ} {call : κ} (hwaits : s.place thread = .waiting call) :
    ∃ moves : List (Move τ κ), (∀ move ∈ moves, move.thread = thread ∨ (s.place move.thread).Inside) ∧
      ∃ others result, (s.runFrom L body moves).returned = s.returned ++ others ++ [⟨thread, call, result⟩] := by
  by_cases hfree : L.free s.lock
  · obtain ⟨moves, hown, result, hreturned⟩ := exists_runFrom_waiting L body hfree hwaits
    refine ⟨moves, fun move hmem ↦ .inl (hown move hmem), [], result, ?_⟩
    rw [hreturned, List.append_nil]
  · have hsome : ∃ holder, (s.place holder).Inside := by
      by_contra hnone
      exact hfree (h.free_iff.mpr (not_exists.mp hnone))
    obtain ⟨holder, hinside⟩ := hsome
    cases hplace : s.place holder with
    | outside =>
      rw [hplace] at hinside
      exact hinside.elim
    | waiting held =>
      rw [hplace] at hinside
      exact hinside.elim
    | inside held code =>
      have hne : thread ≠ holder := by
        intro heq
        rw [heq, hplace] at hwaits
        cases hwaits
      obtain ⟨moves, hown, hrun⟩ := exists_runFrom_inside L body hplace
      have hwaits' : (s.runFrom L body moves).place thread = .waiting call := by
        rw [hrun]
        exact (update_of_ne hne _ _).trans hwaits
      have hfree' : L.free (s.runFrom L body moves).lock := by
        rw [hrun]
        exact L.free_leave s.lock
      obtain ⟨more, hmore, result, hreturned⟩ := exists_runFrom_waiting L body hfree' hwaits'
      refine ⟨moves ++ more, ?_, [⟨holder, held, (code.run s.data).1⟩], result, ?_⟩
      · intro move hmem
        rcases List.mem_append.mp hmem with hmem | hmem
        · exact .inr (by rw [hown move hmem]; exact hinside)
        · exact .inl (hmore move hmem)
      · rw [runFrom_append, hreturned, hrun]

/-! ## What each step leads to -/

/-- Every step that the threads inside have in front of them leads to a related state. -/
def Following (rel : σ → σ → Prop) (s : Threads Λ τ κ σ ρ) : Prop :=
  ∀ thread call code, s.place thread = .inside call code → code.Follows rel

variable {rel : σ → σ → Prop}

theorem Following.moveTo (h : s.Following rel) {thread : τ} {place : Place κ σ ρ}
    (hplace : ∀ call code, place = .inside call code → code.Follows rel) : (s.moveTo thread place).Following rel := by
  intro other call code hinside
  by_cases hother : other = thread
  · rw [hother, moveTo_self] at hinside
    exact hplace call code hinside
  · rw [moveTo_of_ne s place hother] at hinside
    exact h other call code hinside

theorem Following.step (hbody : ∀ call, (body call).Follows rel) (h : s.Following rel) (move : Move τ κ) :
    (s.step L body move).Following rel := by
  cases move with
  | call thread call =>
    rw [Threads.step]
    split
    · exact h.moveTo fun _ _ hplace ↦ nomatch hplace
    · exact h
  | tryEnter thread =>
    rw [Threads.step]
    split
    · rename_i call hplace
      split
      · apply h.moveTo
        intro call' code heq
        cases heq
        exact hbody call
      · exact h
    · exact h
  | work thread =>
    rw [Threads.step]
    split
    · rename_i call change next hplace
      apply h.moveTo
      intro call' code heq
      cases heq
      exact (h thread call _ hplace s.data).2
    · exact h
  | leave thread =>
    rw [Threads.step]
    split
    · exact h.moveTo fun _ _ hplace ↦ nomatch hplace
    · exact h

omit [DecidableEq τ] in
theorem following_initial {lock : Λ} : (initial lock first : Threads Λ τ κ σ ρ).Following rel := by
  intro _ _ _ hplace
  cases hplace

theorem following_runFrom (hbody : ∀ call, (body call).Follows rel) (h : s.Following rel) (moves : List (Move τ κ)) :
    (s.runFrom L body moves).Following rel :=
  Runs.foldl_keeps (fun _ move hs ↦ hs.step hbody move) h moves

omit [DecidableEq τ] in
/-- In the middle of a call too the data leads to what the calls leave one after the other. -/
theorem Sound.leads [Std.Refl rel] [IsTrans σ rel] (h : Sound L body first s) (hfollows : s.Following rel) :
    ∃ more : List κ, more.length ≤ 1 ∧ (∀ call ∈ more, ∃ thread code, s.place thread = .inside call code) ∧
      rel s.data (dataAfter body first (s.calls ++ more)) := by
  by_cases hnone : ∀ thread, ¬ (s.place thread).Inside
  · refine ⟨[], Nat.zero_le _, List.forall_mem_nil _, ?_⟩
    rw [List.append_nil, ← h.quiet hnone]
    exact refl_of rel s.data
  · obtain ⟨thread, hinside⟩ := not_forall_not.mp hnone
    cases hplace : s.place thread with
    | outside =>
      rw [hplace] at hinside
      exact hinside.elim
    | waiting call =>
      rw [hplace] at hinside
      exact hinside.elim
    | inside call code =>
      refine ⟨[call], Nat.le_refl _, List.forall_mem_singleton.mpr ⟨thread, code, hplace⟩, ?_⟩
      rw [dataAfter_concat, ← h.rest thread call code hplace]
      exact (hfollows thread call code hplace).run s.data

end Threads

end DxApi.Serialized
