import DxApi.Lib.Runs
import Mathlib.Algebra.BigOperators.Group.Finset.Piecewise
import Mathlib.Algebra.BigOperators.Ring.Finset
import Mathlib.Data.Fintype.BigOperators
import Mathlib.Tactic.Ring

/-!
# The threads that wait before they report a lost connection

`onIOStreamDisconnected` counts the threads that wait for the cork to be taken off, and
`flushExceptions` waits until the counter is zero. An addition reads the counter and then exchanges it
for the sum, again and again until the exchange returns what was read. An exchange that fails has stored
the sum all the same, so an addition that came in between is undone.
-/

namespace DxApi.Session

variable {Thread : Type} [DecidableEq Thread]

/-! ## The counter -/

/-- Where a thread is in the loop of `add_yield`: before the read of `value_`, or before the exchange. -/
inductive AddYield
  | reading (delta : Int32)
  | exchanging (delta : Int32) (tmp : UInt32)
  deriving DecidableEq

def AddYield.delta : AddYield → Int32
  | .reading delta => delta
  | .exchanging delta _ => delta

structure WaitableAtomicUint (Thread : Type) where
  value : UInt32
  /-- The calls of `add_yield` in progress. -/
  calls : Thread → Option AddYield
  /-- The deltas of the calls that have returned. -/
  completed : List Int32

namespace WaitableAtomicUint

def constructed : WaitableAtomicUint Thread := ⟨0, fun _ ↦ none, []⟩

/-- A step of a thread. -/
inductive Step (Thread : Type)
  | addYield (thread : Thread) (delta : Int32)
  | read (thread : Thread)
  | exchange (thread : Thread)

def enter (a : WaitableAtomicUint Thread) (thread : Thread) (delta : Int32) : WaitableAtomicUint Thread :=
  { a with calls := Function.update a.calls thread (some (.reading delta)) }

/-- The exchange stores the sum; the call returns if `tmp` is what was stored before. -/
def exchangeFor (a : WaitableAtomicUint Thread) (thread : Thread) (delta : Int32) (tmp : UInt32) :
    WaitableAtomicUint Thread :=
  if tmp = a.value then
    { value := tmp + delta.toUInt32
      calls := Function.update a.calls thread none
      completed := a.completed ++ [delta] }
  else
    { a with
      value := tmp + delta.toUInt32
      calls := Function.update a.calls thread (some (.reading delta)) }

def step (a : WaitableAtomicUint Thread) : Step Thread → WaitableAtomicUint Thread
  | .addYield thread delta =>
    match a.calls thread with
    | none => a.enter thread delta
    | some _ => a
  | .read thread =>
    match a.calls thread with
    | some (.reading delta) => { a with calls := Function.update a.calls thread (some (.exchanging delta a.value)) }
    | _ => a
  | .exchange thread =>
    match a.calls thread with
    | some (.exchanging delta tmp) => a.exchangeFor thread delta tmp
    | _ => a

/-- The sum of the deltas of all calls that have returned. -/
def total (a : WaitableAtomicUint Thread) : ℤ := (a.completed.map Int32.toInt).sum

/-- No update is lost: the counter is the sum, in 32 bits. -/
def Counts (a : WaitableAtomicUint Thread) : Prop := (a.value.toNat : ℤ) = a.total % 2 ^ 32

/-- An exchange finds what was read, or what it is about to store. -/
def Finds (value : UInt32) : Option AddYield → Prop
  | some (.exchanging delta tmp) => value = tmp ∨ value = tmp + delta.toUInt32
  | _ => True

def Undisturbed (a : WaitableAtomicUint Thread) : Step Thread → Prop
  | .exchange thread => Finds a.value (a.calls thread)
  | _ => True

instance decidableFinds (value : UInt32) : (call : Option AddYield) → Decidable (Finds value call)
  | some (.exchanging delta tmp) => inferInstanceAs (Decidable (value = tmp ∨ value = tmp + delta.toUInt32))
  | some (.reading _) => instDecidableTrue
  | none => instDecidableTrue

variable {a : WaitableAtomicUint Thread}

omit [DecidableEq Thread] in
theorem counts_constructed : (constructed : WaitableAtomicUint Thread).Counts := rfl

theorem toInt_mod (delta : Int32) : delta.toInt % 2 ^ 32 = (delta.toUInt32.toNat : ℤ) := by
  have hbits : delta.toInt = (delta.toUInt32.toNat : ℤ).bmod (2 ^ 32) := by
    rw [← Int32.toInt_toBitVec, BitVec.toInt_eq_toNat_bmod, Int32.toNat_toBitVec]
  have hlt := delta.toUInt32.toNat_lt
  have hsame : (delta.toUInt32.toNat : ℤ).bmod (2 ^ 32) % ((2 ^ 32 : ℕ) : ℤ) =
      delta.toUInt32.toNat % ((2 ^ 32 : ℕ) : ℤ) := Int.bmod_emod
  rw [hbits]
  omega

theorem toNat_add_delta (tmp : UInt32) (delta : Int32) :
    ((tmp + delta.toUInt32).toNat : ℤ) = (tmp.toNat + delta.toInt) % 2 ^ 32 := by
  have hdelta := toInt_mod delta
  rw [UInt32.toNat_add]
  omega

/-- A call that returns has added its delta. -/
theorem counts_exchangeFor_of_eq (h : a.Counts) (thread : Thread) (delta : Int32) :
    (a.exchangeFor thread delta a.value).Counts := by
  rw [exchangeFor, if_pos rfl, Counts, toNat_add_delta, total, List.map_append, List.sum_append]
  have hcounts : (a.value.toNat : ℤ) = (a.completed.map Int32.toInt).sum % 2 ^ 32 := h
  simp only [List.map_cons, List.map_nil, List.sum_cons, List.sum_nil]
  omega

/-- A call that goes on leaves the counter right if and only if it stores what is there. -/
theorem counts_exchangeFor_iff_of_ne (h : a.Counts) (thread : Thread) {delta : Int32} {tmp : UInt32}
    (hne : tmp ≠ a.value) : (a.exchangeFor thread delta tmp).Counts ↔ a.value = tmp + delta.toUInt32 := by
  rw [exchangeFor, if_neg hne, Counts, total]
  have hcounts : (a.value.toNat : ℤ) = (a.completed.map Int32.toInt).sum % 2 ^ 32 := h
  rw [← hcounts, ← UInt32.toNat_inj, Int.natCast_inj]
  exact eq_comm

theorem step_counts_iff (h : a.Counts) (action : Step Thread) : (a.step action).Counts ↔ a.Undisturbed action := by
  cases action with
  | addYield thread delta =>
    rw [step]
    split
    · exact iff_of_true h trivial
    · exact iff_of_true h trivial
  | read thread =>
    rw [step]
    split
    · exact iff_of_true h trivial
    · exact iff_of_true h trivial
  | exchange thread =>
    rw [step, Undisturbed]
    split
    · rename_i delta tmp hcall
      rw [hcall, Finds]
      by_cases heq : tmp = a.value
      · rw [heq]
        exact iff_of_true (counts_exchangeFor_of_eq h thread delta) (.inl rfl)
      · rw [counts_exchangeFor_iff_of_ne h thread heq, or_iff_right (Ne.symm heq)]
    · rename_i hcall
      rw [Finds.eq_def]
      split
      · rename_i hexchanging
        exact absurd hexchanging (hcall _ _)
      · exact iff_of_true h trivial

def run (steps : List (Step Thread)) : WaitableAtomicUint Thread := steps.foldl step constructed

/-- The counter is right in every state of a run if and only if each exchange is undisturbed. -/
theorem run_counts_iff (steps : List (Step Thread)) :
    (∀ done, done <+: steps → (run done).Counts) ↔
      ∀ done action, done ++ [action] <+: steps → (run done).Undisturbed action := by
  apply Runs.throughout_iff fun _ ↦ True
  · exact fun _ _ _ ↦ trivial
  · exact fun _ action _ hgood ↦ step_counts_iff hgood action
  · trivial
  · exact counts_constructed

end WaitableAtomicUint

/-! ## The threads -/

/-- Where a thread is in `onIOStreamDisconnected`: out of it, in the first call of `add_yield`, in the
loop that waits for the cork, or in the second call. -/
inductive DisconnectPoint
  | outside
  | entering
  | blocked
  | leaving
  deriving DecidableEq

namespace DisconnectPoint

/-- What the call a thread is in adds. -/
def delta : DisconnectPoint → Option Int32
  | outside => none
  | entering => some 1
  | blocked => none
  | leaving => some (-1)

/-- Where a thread is behind its call. -/
def behind : DisconnectPoint → DisconnectPoint
  | outside => outside
  | entering => blocked
  | blocked => blocked
  | leaving => outside

/-- What the returned calls of a thread have added. -/
def counted : DisconnectPoint → ℤ
  | outside => 0
  | entering => 0
  | blocked => 1
  | leaving => 1

theorem behind_of_delta_none {p : DisconnectPoint} (h : p.delta = none) : p.behind = p := by
  cases p with
  | outside => rfl
  | entering => cases h
  | blocked => rfl
  | leaving => cases h

theorem delta_behind (p : DisconnectPoint) : p.behind.delta = none := by
  cases p <;> rfl

theorem counted_behind {p : DisconnectPoint} {delta : Int32} (h : p.delta = some delta) :
    p.behind.counted = p.counted + delta.toInt := by
  cases p with
  | outside => cases h
  | entering =>
    cases h
    decide
  | blocked => cases h
  | leaving =>
    cases h
    decide

end DisconnectPoint

/-- Where `flushExceptions` is: behind the read of the counter, or in its loop. -/
inductive FlushPoint
  | outside
  | counted (n : UInt32)
  | sleeping
  deriving DecidableEq

structure BlockedThreads (Thread : Type) where
  nBlockedExceptionThreads : WaitableAtomicUint Thread
  point : Thread → DisconnectPoint
  exceptionCork : Bool
  flush : FlushPoint

namespace BlockedThreads

/-- The connection has been opened. -/
def opened : BlockedThreads Thread := ⟨.constructed, fun _ ↦ .outside, true, .outside⟩

inductive Action (Thread : Type)
  /-- A thread finds the master connection lost. -/
  | onIOStreamDisconnected (thread : Thread)
  | read (thread : Thread)
  | exchange (thread : Thread)
  /-- A blocked thread sees that the cork is off, or has waited for more than five seconds. -/
  | endWait (thread : Thread) (timedOut : Bool)
  | flushExceptions
  | takeCorkOff
  /-- The counter is read again after a sleep. -/
  | look

def count (b : BlockedThreads Thread) (action : WaitableAtomicUint.Step Thread) : WaitableAtomicUint Thread :=
  b.nBlockedExceptionThreads.step action

/-- A thread that has no call of `add_yield` in progress is behind it. -/
def goOn (b : BlockedThreads Thread) (thread : Thread) : BlockedThreads Thread :=
  match b.nBlockedExceptionThreads.calls thread with
  | none => { b with point := Function.update b.point thread (b.point thread).behind }
  | some _ => b

def step (b : BlockedThreads Thread) : Action Thread → BlockedThreads Thread
  | .onIOStreamDisconnected thread =>
    if b.point thread = .outside then
      { b with
        nBlockedExceptionThreads := b.count (.addYield thread 1)
        point := Function.update b.point thread .entering }
    else b
  | .read thread => { b with nBlockedExceptionThreads := b.count (.read thread) }
  | .exchange thread => { b with nBlockedExceptionThreads := b.count (.exchange thread) }.goOn thread
  | .endWait thread timedOut =>
    if b.point thread = .blocked ∧ (b.exceptionCork = false ∨ timedOut = true) then
      { b with
        nBlockedExceptionThreads := b.count (.addYield thread (-1))
        point := Function.update b.point thread .leaving }
    else b
  | .flushExceptions =>
    match b.flush with
    | .outside => { b with flush := .counted b.nBlockedExceptionThreads.value }
    | _ => b
  | .takeCorkOff =>
    match b.flush with
    | .counted n => { b with exceptionCork := false, flush := if 0 = n then .outside else .sleeping }
    | _ => b
  | .look =>
    match b.flush with
    | .sleeping => { b with flush := if 0 = b.nBlockedExceptionThreads.value then .outside else .sleeping }
    | _ => b

def Undisturbed (b : BlockedThreads Thread) : Action Thread → Prop
  | .exchange thread =>
    WaitableAtomicUint.Finds b.nBlockedExceptionThreads.value (b.nBlockedExceptionThreads.calls thread)
  | _ => True

/-- No update is lost. -/
def Counts (b : BlockedThreads Thread) : Prop := b.nBlockedExceptionThreads.Counts

/-- No call of `add_yield` is in progress. -/
def Quiet (b : BlockedThreads Thread) : Prop := ∀ thread, b.nBlockedExceptionThreads.calls thread = none

/-- `flushExceptions` begins to wait and goes on with it exactly if a thread is blocked. -/
def WaitsForBlocked (b : BlockedThreads Thread) : Prop :=
  (b.flush = .outside → (((b.step .flushExceptions).step .takeCorkOff).flush = .sleeping ↔
    ∃ thread, b.point thread = .blocked)) ∧
  (b.flush = .sleeping → ((b.step .look).flush = .sleeping ↔ ∃ thread, b.point thread = .blocked))

variable {b : BlockedThreads Thread}

instance : (action : Action Thread) → Decidable (b.Undisturbed action)
  | .exchange thread => WaitableAtomicUint.decidableFinds _ (b.nBlockedExceptionThreads.calls thread)
  | .onIOStreamDisconnected _ => instDecidableTrue
  | .read _ => instDecidableTrue
  | .endWait _ _ => instDecidableTrue
  | .flushExceptions => instDecidableTrue
  | .takeCorkOff => instDecidableTrue
  | .look => instDecidableTrue

variable [Fintype Thread]

/-- Each thread is in the call its place says, and the deltas of the returned calls are those of the
threads between their two calls. -/
structure Sound (b : BlockedThreads Thread) : Prop where
  calls : ∀ thread, (b.nBlockedExceptionThreads.calls thread).map AddYield.delta = (b.point thread).delta
  total : b.nBlockedExceptionThreads.total = ∑ thread, (b.point thread).counted

theorem sum_counted_update (point : Thread → DisconnectPoint) (thread : Thread) (p : DisconnectPoint) :
    ∑ t, (Function.update point thread p t).counted =
      ∑ t, (point t).counted + (p.counted - (point thread).counted) := by
  have hupdate : (fun t ↦ (Function.update point thread p t).counted) =
      Function.update (fun t ↦ (point t).counted) thread p.counted := by
    funext t
    by_cases ht : t = thread
    · rw [ht, Function.update_self, Function.update_self]
    · rw [Function.update_of_ne ht, Function.update_of_ne ht]
  calc ∑ t, (Function.update point thread p t).counted
      = p.counted + ∑ t ∈ Finset.univ \ {thread}, (point t).counted := by
        rw [hupdate, Finset.sum_update_of_mem (Finset.mem_univ thread)]
    _ = p.counted + (∑ t, (point t).counted - (point thread).counted) := by
        rw [← Finset.sum_sdiff (Finset.subset_univ {thread}), Finset.sum_singleton, add_sub_cancel_right]
    _ = ∑ t, (point t).counted + (p.counted - (point thread).counted) := by ring

/-- A thread moves to a place with its call, and what it has added is added to the total. -/
theorem Sound.update (h : b.Sound) (thread : Thread) (call : Option AddYield) (p : DisconnectPoint)
    (hcall : call.map AddYield.delta = p.delta) {b' : BlockedThreads Thread}
    (hpoint : b'.point = Function.update b.point thread p)
    (hcalls : b'.nBlockedExceptionThreads.calls = Function.update b.nBlockedExceptionThreads.calls thread call)
    (htotal : b'.nBlockedExceptionThreads.total =
      b.nBlockedExceptionThreads.total + (p.counted - (b.point thread).counted)) : b'.Sound where
  calls t := by
    rw [hcalls, hpoint]
    by_cases ht : t = thread
    · rw [ht, Function.update_self, Function.update_self, hcall]
    · rw [Function.update_of_ne ht, Function.update_of_ne ht, h.calls]
  total := by
    rw [htotal, h.total, hpoint, sum_counted_update]

omit [DecidableEq Thread] in
theorem Sound.congr (h : b.Sound) {b' : BlockedThreads Thread}
    (hcounter : b'.nBlockedExceptionThreads = b.nBlockedExceptionThreads) (hpoint : b'.point = b.point) :
    b'.Sound := by
  constructor
  · rw [hcounter, hpoint]
    exact h.calls
  · rw [hcounter, hpoint]
    exact h.total

/-- A thread that is in no call according to its place enters one. -/
theorem Sound.enter (h : b.Sound) (thread : Thread) {p : DisconnectPoint} {delta : Int32}
    (hnone : (b.point thread).delta = none) (hdelta : p.delta = some delta)
    (hcounted : p.counted = (b.point thread).counted) :
    Sound { b with
      nBlockedExceptionThreads := b.count (.addYield thread delta)
      point := Function.update b.point thread p } := by
  have hcalls : b.nBlockedExceptionThreads.calls thread = none := by
    rw [← Option.map_eq_none_iff, h.calls, hnone]
  have hcount : b.count (.addYield thread delta) = b.nBlockedExceptionThreads.enter thread delta := by
    rw [count, WaitableAtomicUint.step, hcalls]
  apply h.update thread (some (.reading delta)) p hdelta.symm rfl
  · rw [hcount]
    rfl
  · rw [hcount, hcounted, sub_self, add_zero]
    rfl

theorem Sound.read (h : b.Sound) (thread : Thread) :
    Sound { b with nBlockedExceptionThreads := b.count (.read thread) } := by
  cases hcall : b.nBlockedExceptionThreads.calls thread with
  | none => exact h.congr (by rw [count, WaitableAtomicUint.step, hcall]) rfl
  | some call =>
    cases call with
    | exchanging delta tmp => exact h.congr (by rw [count, WaitableAtomicUint.step, hcall]) rfl
    | reading delta =>
      have hdelta := h.calls thread
      rw [hcall] at hdelta
      have hcount : b.count (.read thread) = { b.nBlockedExceptionThreads with
          calls := Function.update b.nBlockedExceptionThreads.calls thread
            (some (.exchanging delta b.nBlockedExceptionThreads.value)) } := by
        rw [count, WaitableAtomicUint.step, hcall]
      apply h.update thread (some (.exchanging delta b.nBlockedExceptionThreads.value)) (b.point thread) hdelta
      · exact (Function.update_eq_self thread b.point).symm
      · rw [hcount]
      · rw [hcount, sub_self, add_zero]
        rfl

omit [Fintype Thread] in
theorem goOn_of_none {thread : Thread} (h : b.nBlockedExceptionThreads.calls thread = none) :
    b.goOn thread = { b with point := Function.update b.point thread (b.point thread).behind } := by
  rw [goOn, h]

omit [Fintype Thread] in
theorem goOn_of_some {thread : Thread} {call : AddYield} (h : b.nBlockedExceptionThreads.calls thread = some call) :
    b.goOn thread = b := by
  rw [goOn, h]

omit [Fintype Thread] in
theorem total_exchangeFor (a : WaitableAtomicUint Thread) (thread : Thread) (delta : Int32) :
    (a.exchangeFor thread delta a.value).total = a.total + delta.toInt := by
  rw [WaitableAtomicUint.exchangeFor, if_pos rfl, WaitableAtomicUint.total, List.map_append, List.sum_append]
  simp only [List.map_cons, List.map_nil, List.sum_cons, List.sum_nil, add_zero]
  rfl

theorem Sound.exchange (h : b.Sound) (thread : Thread) : (b.step (.exchange thread)).Sound := by
  have hdelta := h.calls thread
  cases hcall : b.nBlockedExceptionThreads.calls thread with
  | none =>
    have hcount : b.count (.exchange thread) = b.nBlockedExceptionThreads := by
      rw [count, WaitableAtomicUint.step, hcall]
    rw [hcall] at hdelta
    have hbehind : (b.point thread).behind = b.point thread :=
      DisconnectPoint.behind_of_delta_none hdelta.symm
    rw [step, hcount, goOn_of_none hcall, hbehind, Function.update_eq_self]
    exact h
  | some call =>
    rw [hcall] at hdelta
    cases call with
    | reading delta =>
      have hcount : b.count (.exchange thread) = b.nBlockedExceptionThreads := by
        rw [count, WaitableAtomicUint.step, hcall]
      rw [step, hcount, goOn_of_some hcall]
      exact h
    | exchanging delta tmp =>
      have hcount : b.count (.exchange thread) = b.nBlockedExceptionThreads.exchangeFor thread delta tmp := by
        rw [count, WaitableAtomicUint.step, hcall]
      rw [step, hcount]
      by_cases htmp : tmp = b.nBlockedExceptionThreads.value
      · rw [htmp]
        have hcalls : (b.nBlockedExceptionThreads.exchangeFor thread delta b.nBlockedExceptionThreads.value).calls =
            Function.update b.nBlockedExceptionThreads.calls thread none := by
          rw [WaitableAtomicUint.exchangeFor, if_pos rfl]
        have hcounted := DisconnectPoint.counted_behind hdelta.symm
        rw [goOn_of_none (by rw [hcalls, Function.update_self])]
        apply h.update thread none (b.point thread).behind (DisconnectPoint.delta_behind _).symm rfl hcalls
        rw [total_exchangeFor, hcounted, AddYield.delta]
        ring
      · have hcalls : (b.nBlockedExceptionThreads.exchangeFor thread delta tmp).calls =
            Function.update b.nBlockedExceptionThreads.calls thread (some (.reading delta)) := by
          rw [WaitableAtomicUint.exchangeFor, if_neg htmp]
        rw [goOn_of_some (by rw [hcalls, Function.update_self])]
        apply h.update thread (some (.reading delta)) (b.point thread) hdelta
        · exact (Function.update_eq_self thread b.point).symm
        · exact hcalls
        · rw [WaitableAtomicUint.exchangeFor, if_neg htmp, sub_self, add_zero]
          rfl

theorem Sound.step (h : b.Sound) (action : Action Thread) : (b.step action).Sound := by
  cases action with
  | onIOStreamDisconnected thread =>
    rw [BlockedThreads.step]
    split
    · rename_i houtside
      exact h.enter thread (by rw [houtside]; rfl) rfl (by rw [houtside]; rfl)
    · exact h
  | read thread => exact h.read thread
  | exchange thread => exact h.exchange thread
  | endWait thread timedOut =>
    rw [BlockedThreads.step]
    split
    · rename_i hends
      exact h.enter thread (by rw [hends.1]; rfl) rfl (by rw [hends.1]; rfl)
    · exact h
  | flushExceptions =>
    rw [BlockedThreads.step]
    split
    · exact h.congr rfl rfl
    · exact h
  | takeCorkOff =>
    rw [BlockedThreads.step]
    split
    · exact h.congr rfl rfl
    · exact h
  | look =>
    rw [BlockedThreads.step]
    split
    · exact h.congr rfl rfl
    · exact h

omit [DecidableEq Thread] in
theorem sound_opened : (opened : BlockedThreads Thread).Sound where
  calls _ := rfl
  total := Finset.sum_const_zero.symm

/-! ## Runs -/

omit [Fintype Thread] in
theorem goOn_counter (b : BlockedThreads Thread) (thread : Thread) :
    (b.goOn thread).nBlockedExceptionThreads = b.nBlockedExceptionThreads := by
  rw [goOn]
  split
  · rfl
  · rfl

omit [Fintype Thread] in
/-- The counter stays right if and only if the exchange of the step, if it is one, is undisturbed. -/
theorem step_counts_iff (h : b.Counts) (action : Action Thread) :
    (b.step action).Counts ↔ b.Undisturbed action := by
  cases action with
  | onIOStreamDisconnected thread =>
    rw [step]
    split
    · exact WaitableAtomicUint.step_counts_iff h (.addYield thread 1)
    · exact iff_of_true h trivial
  | read thread => exact WaitableAtomicUint.step_counts_iff h (.read thread)
  | exchange thread =>
    rw [step, Counts, goOn_counter]
    exact WaitableAtomicUint.step_counts_iff h (.exchange thread)
  | endWait thread timedOut =>
    rw [step]
    split
    · exact WaitableAtomicUint.step_counts_iff h (.addYield thread (-1))
    · exact iff_of_true h trivial
  | flushExceptions =>
    rw [step]
    split <;> exact iff_of_true h trivial
  | takeCorkOff =>
    rw [step]
    split <;> exact iff_of_true h trivial
  | look =>
    rw [step]
    split <;> exact iff_of_true h trivial

def run (actions : List (Action Thread)) : BlockedThreads Thread := actions.foldl step opened

theorem sound_run (actions : List (Action Thread)) : (run actions).Sound :=
  Runs.foldl_keeps (fun _ action h ↦ h.step action) sound_opened actions

omit [Fintype Thread] in
theorem run_counts_iff (actions : List (Action Thread)) :
    (∀ done, done <+: actions → (run done).Counts) ↔
      ∀ done action, done ++ [action] <+: actions → (run done).Undisturbed action := by
  apply Runs.throughout_iff fun _ ↦ True
  · exact fun _ _ _ ↦ trivial
  · exact fun _ action _ hgood ↦ step_counts_iff hgood action
  · trivial
  · exact WaitableAtomicUint.counts_constructed

/-- How many threads are blocked. -/
def blocked (b : BlockedThreads Thread) : ℕ := (Finset.univ.filter fun thread ↦ b.point thread = .blocked).card

omit [DecidableEq Thread] in
/-- Without a call in progress the returned calls have counted the blocked threads. -/
theorem Sound.total_of_quiet (h : b.Sound) (hquiet : b.Quiet) : b.nBlockedExceptionThreads.total = b.blocked := by
  have hcounted (thread : Thread) : (b.point thread).counted = if b.point thread = .blocked then 1 else 0 := by
    have hdelta := h.calls thread
    rw [hquiet thread] at hdelta
    cases hpoint : b.point thread with
    | outside => rfl
    | entering =>
      rw [hpoint] at hdelta
      cases hdelta
    | blocked => rfl
    | leaving =>
      rw [hpoint] at hdelta
      cases hdelta
  calc b.nBlockedExceptionThreads.total
      = ∑ thread, (b.point thread).counted := h.total
    _ = ∑ thread, if b.point thread = .blocked then 1 else 0 := Finset.sum_congr rfl fun thread _ ↦ hcounted thread
    _ = b.blocked := by rw [blocked, Finset.natCast_card_filter]

omit [DecidableEq Thread] in
theorem blocked_pos_iff : 0 < b.blocked ↔ ∃ thread, b.point thread = .blocked := by
  rw [blocked, Finset.card_pos]
  constructor
  · intro ⟨thread, hmem⟩
    exact ⟨thread, (Finset.mem_filter.mp hmem).2⟩
  · intro ⟨thread, hpoint⟩
    exact ⟨thread, Finset.mem_filter.mpr ⟨Finset.mem_univ thread, hpoint⟩⟩

omit [DecidableEq Thread] in
/-- A counter that is right is zero if and only if no thread is blocked. -/
theorem Sound.value_ne_zero_iff (h : b.Sound) (hcounts : b.Counts) (hquiet : b.Quiet)
    (hfew : b.blocked < 2 ^ 32) :
    ¬ 0 = b.nBlockedExceptionThreads.value ↔ ∃ thread, b.point thread = .blocked := by
  have htotal := h.total_of_quiet hquiet
  have hvalue : b.nBlockedExceptionThreads.value.toNat = b.blocked := by
    rw [Counts, WaitableAtomicUint.Counts, htotal] at hcounts
    omega
  rw [← blocked_pos_iff, ← hvalue, ← UInt32.toNat_inj, UInt32.toNat_zero]
  omega

theorem Sound.waitsForBlocked (h : b.Sound) (hcounts : b.Counts) (hquiet : b.Quiet)
    (hfew : b.blocked < 2 ^ 32) : b.WaitsForBlocked := by
  have hvalue := h.value_ne_zero_iff hcounts hquiet hfew
  have hsleeps (n : UInt32) : (if 0 = n then FlushPoint.outside else .sleeping) = .sleeping ↔ ¬ 0 = n := by
    by_cases hn : 0 = n
    · rw [if_pos hn]
      exact iff_of_false FlushPoint.noConfusion (not_not.mpr hn)
    · rw [if_neg hn]
      exact iff_of_true rfl hn
  constructor
  · intro hflush
    rw [← hvalue, ← hsleeps]
    simp only [BlockedThreads.step, hflush]
  · intro hflush
    rw [← hvalue, ← hsleeps]
    simp only [BlockedThreads.step, hflush]

/-- In every run of any number of threads with any additions: the counter is the sum of the returned
additions in each state if and only if each exchange is undisturbed. In every run of the threads that
find the connection lost in which this is so, `flushExceptions` waits for the blocked ones. -/
theorem counts_of_undisturbed (steps : List (WaitableAtomicUint.Step Thread)) {actions : List (Action Thread)}
    (h : ∀ done action, done ++ [action] <+: actions → (run done).Undisturbed action) :
    ((∀ done, done <+: steps → (WaitableAtomicUint.run done).Counts) ↔
      ∀ done action, done ++ [action] <+: steps → (WaitableAtomicUint.run done).Undisturbed action) ∧
    ∀ done, done <+: actions →
      (run done).Counts ∧ ((run done).Quiet → (run done).blocked < 2 ^ 32 → (run done).WaitsForBlocked) := by
  constructor
  · exact WaitableAtomicUint.run_counts_iff steps
  · intro done hdone
    have hcounts := (run_counts_iff actions).mpr h done hdone
    exact ⟨hcounts, (sound_run done).waitsForBlocked hcounts⟩

/-- Two threads, one after the other, and `flushExceptions` with them. -/
def oneAfterAnother : List (Action Bool) :=
  [.onIOStreamDisconnected true, .read true, .exchange true, .onIOStreamDisconnected false, .read false,
    .exchange false, .flushExceptions, .takeCorkOff, .endWait true false, .read true, .exchange true, .look,
    .endWait false false, .read false, .exchange false, .look]

theorem counts_oneAfterAnother :
    ((∀ done, done <+: [] → (WaitableAtomicUint.run done : WaitableAtomicUint Bool).Counts) ↔
      ∀ done action, done ++ [action] <+: [] →
        (WaitableAtomicUint.run done : WaitableAtomicUint Bool).Undisturbed action) ∧
    ∀ done, done <+: oneAfterAnother →
      (run done).Counts ∧ ((run done).Quiet → (run done).blocked < 2 ^ 32 → (run done).WaitsForBlocked) := by
  have hadmitted : Runs.Admitted step Undisturbed opened oneAfterAnother := by decide +kernel
  exact counts_of_undisturbed [] fun _ _ hdone ↦ hadmitted.of_concat hdone

/-- A thread leaves between the read and the exchange of another one that enters. -/
def lostUpdate : List (Action Bool) :=
  [.onIOStreamDisconnected true, .read true, .exchange true, .onIOStreamDisconnected false, .read false,
    .endWait true true, .read true, .exchange true, .exchange false, .read false, .exchange false,
    .endWait false true, .read false, .exchange false]

/-- Behind it no thread is blocked and `flushExceptions` waits: the sum is 0 and the counter 2. -/
theorem lostUpdate_counts :
    (run lostUpdate).Quiet ∧ (run lostUpdate).nBlockedExceptionThreads.total = 0 ∧
      (run lostUpdate).nBlockedExceptionThreads.value = 2 ∧ ¬ (run lostUpdate).Counts ∧
      ¬ (run lostUpdate).WaitsForBlocked := by
  have hquiet : (run lostUpdate).Quiet := by
    intro thread
    cases thread <;> decide +kernel
  have htotal : (run lostUpdate).nBlockedExceptionThreads.total = 0 := by decide +kernel
  have hvalue : (run lostUpdate).nBlockedExceptionThreads.value = 2 := by decide +kernel
  refine ⟨hquiet, htotal, hvalue, ?_, ?_⟩
  · intro hcounts
    rw [Counts, WaitableAtomicUint.Counts, htotal, hvalue] at hcounts
    exact absurd hcounts (by decide)
  · intro hwaits
    have hsleeps : (((run lostUpdate).step .flushExceptions).step .takeCorkOff).flush = .sleeping := by
      decide +kernel
    obtain ⟨thread, hblocked⟩ := (hwaits.1 (by decide +kernel)).mp hsleeps
    have hnone : ∀ thread, (run lostUpdate).point thread ≠ .blocked := by decide +kernel
    exact hnone thread hblocked

end BlockedThreads

end DxApi.Session
