import DxApi.Lib.Brackets
import DxApi.Writer.Container
import DxApi.Writer.FailedWrites

/-!
# Containers that are opened and closed

`depth` and `containerIsArray` are the stack of the open containers. An end call takes the innermost
container off it and only then compares its kind: when the kinds differ it throws, but the container
is gone, and a message with it can be finished although no end call of its kind has returned.

A history records what the calls since the last `startMessage` did to the containers, so that the
writer can be compared with it after any run, whatever the client made of the exceptions.
-/

namespace DxApi.Writer

open Exec ByteMemory Brackets

variable {w w' : DataWriter} {depth : ℕ} {isArray : ℕ → Bool}

/-! ## Calls -/

/-- The calls on a writer. -/
inductive WriterCall
  | startMessage
  | arrayStart (nItems : ℕ)
  | arrayEnd
  | objectStart (typeIndex : UInt8)
  | objectEnd
  | leaf (write : LeafWrite)
  | finishMessage (messageStart : ℤ)

namespace WriterCall

def exec : WriterCall → WriterM Unit
  | startMessage => do
    let _ ← Writer.startMessage
  | arrayStart nItems => writeArrayStart nItems
  | arrayEnd => writeArrayEnd
  | objectStart typeIndex => writeObjectStart typeIndex
  | objectEnd => writeObjectEnd
  | leaf write => write.exec
  | finishMessage messageStart => do
    let _ ← Writer.finishMessage messageStart

end WriterCall

/-! ## Histories -/

/-- What the calls since the last `startMessage` did: the containers that were opened, and those that
were closed by an end call that returned; and how many end calls were of the wrong kind. -/
structure History where
  brackets : List (Bracket Bool)
  mismatches : ℕ

namespace History

def empty : History := ⟨[], 0⟩

/-- A start call opens a container if it gets past its check of the depth. -/
def opening (isArray : Bool) (w : DataWriter) (history : History) : History :=
  if w.depth < loaderMaxNestedObjects then
    { history with brackets := history.brackets ++ [.opened isArray] }
  else
    history

/-- The innermost container is of the other kind. -/
def Mismatch (isArray : Bool) (w : DataWriter) : Prop :=
  w.depth ≠ 0 ∧ w.containerIsArray (w.depth - 1) ≠ isArray

instance (isArray : Bool) (w : DataWriter) : Decidable (Mismatch isArray w) :=
  inferInstanceAs (Decidable (_ ∧ _))

/-- An end call closes a container if it returns. -/
def closing (isArray : Bool) (w : DataWriter) (history : History) : History where
  brackets := history.brackets ++ if returns (closeContainer isArray) w then [.closed isArray] else []
  mismatches := history.mismatches + if Mismatch isArray w then 1 else 0

/-- The history after a call, made in the state `w`. -/
def next (call : WriterCall) (w : DataWriter) (history : History) : History :=
  match call with
  | .startMessage => if returns startMessage w then empty else history
  | .arrayStart _ => history.opening true w
  | .objectStart _ => history.opening false w
  | .arrayEnd => history.closing true w
  | .objectEnd => history.closing false w
  | .leaf _ => history
  | .finishMessage _ => history

end History

/-- The writer and the history after a sequence of calls; what they throw is caught. -/
def runCalls : List WriterCall → DataWriter × History → DataWriter × History
  | [], s => s
  | call :: calls, (w, history) =>
    runCalls calls (finalState call.exec w, history.next call w)

/-! ## What the calls do to the stack of containers -/

/-- The kinds of the open containers, the innermost one first. -/
def openKinds (isArray : ℕ → Bool) : ℕ → List Bool
  | 0 => []
  | depth + 1 => isArray depth :: openKinds isArray depth

theorem openKinds_update (kind : Bool) {level : ℕ} (h : depth ≤ level) :
    openKinds (Function.update isArray level kind) depth = openKinds isArray depth := by
  induction depth with
  | zero => rfl
  | succ depth ih =>
    have hne : depth ≠ level := by omega
    simp only [openKinds, Function.update_of_ne hne, ih (Nat.le_of_succ_le h)]

/-- The stack of the open containers is as given. -/
def HasNesting (depth : ℕ) (isArray : ℕ → Bool) (w : DataWriter) : Prop :=
  w.depth = depth ∧ w.containerIsArray = isArray

theorem Grown.hasNesting (h : Grown w w') : HasNesting w.depth w.containerIsArray w' := by
  constructor
  · rw [h.rest]
  · rw [h.rest]

/-- Stores leave the containers alone. -/
theorem Stores.hasNesting {α : Type} {program : WriterM α} (h : Stores program) (w : DataWriter) :
    HasNesting w.depth w.containerIsArray (finalState program w) := by
  apply finalState_of_wp
  apply wp_mono (h w)
  · exact fun _ _ hw' ↦ hw'.1.hasNesting
  · exact fun _ _ hw' ↦ hw'.hasNesting

theorem writePackedUInt22_stores (value : ℕ) : Stores (writePackedUInt22 value) := by
  unfold writePackedUInt22
  apply (putByte_steps _).spoils.stores.ite
  apply stores_get.bind
  intro w
  exact (putBE_spoils _ _).stores.bind fun _ w ↦ ⟨Grown.of_mem w _, id⟩

/-- A start call that gets past the check of the depth opens a container, also when it throws. -/
theorem start_nesting (kind : Bool) {rest : WriterM Unit} (hrest : Stores rest) (w : DataWriter) :
    if w.depth < loaderMaxNestedObjects then
      HasNesting (w.depth + 1) (Function.update w.containerIsArray w.depth kind)
        (finalState (do openContainer kind; rest) w)
    else
      HasNesting w.depth w.containerIsArray (finalState (do openContainer kind; rest) w) := by
  have hlength : Stores reserveLengthField := (putByte_steps 0).spoils.stores
  by_cases hdeep : loaderMaxNestedObjects ≤ w.depth
  · rw [if_neg (not_lt.mpr hdeep)]
    apply finalState_of_wp
    simp only [openContainer, wp_bind, wp_get, wp_ite, wp_throw]
    exact ⟨fun _ ↦ ⟨rfl, rfl⟩, fun hnot ↦ absurd hdeep hnot⟩
  · rw [if_pos (not_le.mp hdeep)]
    apply finalState_of_wp
    simp only [openContainer, bind_assoc, wp_bind, wp_get, wp_ite, wp_throw, wp_set]
    refine ⟨fun h ↦ absurd h hdeep, fun _ ↦ ?_⟩
    have hboth := hlength.bind fun _ ↦ hrest
    apply wp_bind.mp
    apply wp_mono (hboth _)
    · exact fun _ _ hw' ↦ hw'.1.hasNesting
    · exact fun _ _ hw' ↦ hw'.hasNesting

/-- An end call takes the innermost container off the stack, and returns if it was of its kind. -/
theorem closeContainer_nesting (kind : Bool) (w : DataWriter) :
    HasNesting (w.depth - 1) w.containerIsArray (finalState (closeContainer kind) w) ∧
      (returns (closeContainer kind) w = true ↔ w.depth ≠ 0 ∧ ¬ History.Mismatch kind w) := by
  have hend : wp (closeContainer kind)
      (fun _ w' ↦ HasNesting (w.depth - 1) w.containerIsArray w' ∧ w.depth ≠ 0 ∧
        ¬ History.Mismatch kind w)
      (fun _ w' ↦ HasNesting (w.depth - 1) w.containerIsArray w' ∧
        ¬ (w.depth ≠ 0 ∧ ¬ History.Mismatch kind w)) w := by
    unfold closeContainer
    rw [wp_bind, wp_get]
    cases hdepth : w.depth with
    | zero => exact ⟨⟨hdepth, rfl⟩, fun h ↦ h.1 rfl⟩
    | succ depth =>
      simp only [wp_bind, wp_set, wp_ite, wp_throw, wp_modify, wp_pure, History.Mismatch, hdepth,
        Nat.add_sub_cancel]
      refine ⟨fun hkind ↦ ⟨⟨rfl, rfl⟩, fun h ↦ h.2 ⟨h.1, hkind⟩⟩, fun hkind ↦ ?_⟩
      have hreturns : depth + 1 ≠ 0 ∧ ¬ (depth + 1 ≠ 0 ∧ w.containerIsArray depth ≠ kind) :=
        ⟨Nat.succ_ne_zero depth, fun h ↦ hkind h.2⟩
      exact ⟨fun _ ↦ ⟨⟨rfl, rfl⟩, hreturns⟩, fun _ ↦ ⟨⟨rfl, rfl⟩, hreturns⟩⟩
  unfold wp at hend
  unfold finalState returns
  cases hrun : closeContainer kind w with
  | ok value w' =>
    rw [hrun] at hend
    exact ⟨hend.1, fun _ ↦ hend.2, fun _ ↦ rfl⟩
  | error error w' =>
    rw [hrun] at hend
    exact ⟨hend.1, fun h ↦ (Bool.false_ne_true h).elim, fun h ↦ absurd h hend.2⟩

theorem expandLoop_preserves (pBufferStart : ℤ) (points : List ExpansionPoint) (pEnd offset : ℤ) :
    Preserves (HasNesting depth isArray) (expandLoop pBufferStart points pEnd offset) := by
  induction points generalizing pEnd offset with
  | nil => exact preserves_pure _
  | cons point points ih =>
    apply Preserves.bind
    · exact (preserves_throw _).ite (preserves_modify fun _ h ↦ h)
    · intro _
      apply Preserves.bind
      · exact preserves_modify fun _ h ↦ h
      · exact fun _ ↦ ih _ _

theorem expandHeaders_preserves (pBufferStart pEnd offset : ℤ) (points : List ExpansionPoint)
    (pMessageStart : ℤ) :
    Preserves (HasNesting depth isArray)
      (expandHeaders pBufferStart pEnd offset points pMessageStart) := by
  apply (preserves_pure _).ite
  apply (expandLoop_preserves _ _ _ _).bind
  intro last
  exact (preserves_throw _).ite (preserves_pure _)

/-- Nothing in `finishMessage` touches the stack. -/
theorem finishMessage_preserves (messageStart : ℤ) :
    Preserves (HasNesting depth isArray) (finishMessage messageStart) := by
  unfold finishMessage
  apply preserves_get.bind
  intro w
  apply (preserves_throw _).ite
  apply (preserves_pure _).ite
  apply (preserves_throw _).ite
  apply (expandHeaders_preserves _ _ _ _ _).bind
  intro _
  apply Preserves.bind
  · exact preserves_modify fun _ h ↦ h
  · exact fun _ ↦ preserves_pure _

/-! ## The history follows the writer -/

/-- Containers that were taken off the stack by an end call of the wrong kind are opened and not
closed in the history; if there are none, the history runs to the stack of the writer. -/
structure History.Follows (history : History) (w : DataWriter) : Prop where
  excess : excess history.brackets = w.depth + history.mismatches
  stack : history.mismatches = 0 →
    replay [] history.brackets = some (openKinds w.containerIsArray w.depth)

namespace History

variable {history : History}

theorem Follows.of_nesting (h : history.Follows w)
    (hsame : HasNesting w.depth w.containerIsArray w') : history.Follows w' := by
  obtain ⟨hdepth, hkinds⟩ := hsame
  constructor
  · rw [hdepth]
    exact h.excess
  · rw [hdepth, hkinds]
    exact h.stack

theorem follows_empty (h : w.depth = 0) : empty.Follows w := by
  constructor
  · rw [h]
    rfl
  · intro _
    rw [h]
    rfl

theorem Follows.opening (h : history.Follows w) (kind : Bool)
    (hstart : if w.depth < loaderMaxNestedObjects then
        HasNesting (w.depth + 1) (Function.update w.containerIsArray w.depth kind) w'
      else HasNesting w.depth w.containerIsArray w') : (history.opening kind w).Follows w' := by
  unfold History.opening
  by_cases hroom : w.depth < loaderMaxNestedObjects
  · rw [if_pos hroom] at hstart ⊢
    obtain ⟨hdepth, hkinds⟩ := hstart
    constructor
    · have hexcess := h.excess
      rw [excess_append, hexcess, hdepth]
      simp only [Brackets.excess]
      push_cast
      ring
    · intro hnone
      rw [replay_append, h.stack hnone, hdepth, hkinds, openKinds, Function.update_self,
        openKinds_update kind le_rfl]
      rfl
  · rw [if_neg hroom] at hstart ⊢
    exact h.of_nesting hstart

theorem Follows.closing (h : history.Follows w) (kind : Bool) :
    (history.closing kind w).Follows (finalState (closeContainer kind) w) := by
  obtain ⟨⟨hdepth, hkinds⟩, hreturns⟩ := closeContainer_nesting kind w
  have hexcess := h.excess
  unfold History.closing
  by_cases hzero : w.depth = 0
  · have hthrows : ¬ returns (closeContainer kind) w = true := fun hok ↦ (hreturns.mp hok).1 hzero
    have hkind : ¬ Mismatch kind w := fun hmismatch ↦ hmismatch.1 hzero
    rw [if_neg hthrows, if_neg hkind, List.append_nil, Nat.add_zero]
    rw [hzero] at hdepth
    exact h.of_nesting ⟨hdepth.trans hzero.symm, hkinds⟩
  · have hpop : w.depth = (w.depth - 1) + 1 := (Nat.succ_pred_eq_of_ne_zero hzero).symm
    by_cases hkind : Mismatch kind w
    · have hthrows : ¬ returns (closeContainer kind) w = true := fun hok ↦ (hreturns.mp hok).2 hkind
      rw [if_neg hthrows, if_pos hkind, List.append_nil]
      constructor
      · change Brackets.excess history.brackets = _
        rw [hexcess, hdepth]
        push_cast
        omega
      · exact fun hnone ↦ absurd hnone (Nat.succ_ne_zero _)
    · have hinnermost : w.containerIsArray (w.depth - 1) = kind :=
        not_not.mp fun hne ↦ hkind ⟨hzero, hne⟩
      rw [if_pos (hreturns.mpr ⟨hzero, hkind⟩), if_neg hkind, Nat.add_zero]
      constructor
      · change Brackets.excess (history.brackets ++ [Bracket.closed kind]) = _
        rw [excess_append, hexcess, hdepth]
        simp only [Brackets.excess]
        omega
      · intro hnone
        change replay [] (history.brackets ++ [Bracket.closed kind]) = _
        rw [replay_append, h.stack hnone, hdepth, hkinds, hpop, openKinds, hinnermost]
        simp [replay, step, close]

theorem startMessage_nesting (w : DataWriter) :
    wp startMessage (fun _ w' ↦ w'.depth = 0) (fun _ w' ↦ HasNesting w.depth w.containerIsArray w') w := by
  rw [startMessage, wp_bind, wp_get, wp_bind]
  apply wp_mono (putBE_spoils [0, 0, 0, 0] 4 w)
  · exact fun _ _ _ ↦ rfl
  · exact fun _ _ hw' ↦ hw'.1.hasNesting

/-- Every call keeps the history at the writer. -/
theorem Follows.step (h : history.Follows w) (call : WriterCall) :
    (history.next call w).Follows (finalState call.exec w) := by
  cases call with
  | startMessage =>
    rw [WriterCall.exec, finalState_discard]
    by_cases hreturns : returns startMessage w = true
    · rw [next, if_pos hreturns]
      exact follows_empty (of_returns (startMessage_nesting w) hreturns)
    · rw [next, if_neg hreturns]
      exact h.of_nesting (of_throws (startMessage_nesting w) hreturns)
  | arrayStart nItems => exact h.opening true (start_nesting true (writePackedUInt22_stores _) w)
  | objectStart typeIndex => exact h.opening false (start_nesting false (putByte_steps _).spoils.stores w)
  | arrayEnd => exact h.closing true
  | objectEnd => exact h.closing false
  | leaf write => exact h.of_nesting (write.exec_stores.hasNesting w)
  | finishMessage messageStart =>
    have hfinish : Preserves (HasNesting w.depth w.containerIsArray)
        (WriterCall.finishMessage messageStart).exec :=
      (finishMessage_preserves messageStart).bind fun _ ↦ preserves_pure _
    exact h.of_nesting (hfinish.finalState ⟨rfl, rfl⟩)

theorem Follows.run (h : history.Follows w) (calls : List WriterCall) :
    (runCalls calls (w, history)).2.Follows (runCalls calls (w, history)).1 := by
  induction calls generalizing w history with
  | nil => exact h
  | cons call calls ih => exact ih (h.step call)

end History

/-- A message that `finishMessage` returns is properly nested exactly if no end call since
`startMessage` was of the wrong kind. -/
theorem finishMessage_nested (hstart : returns startMessage w = true) (calls : List WriterCall)
    {messageStart : ℤ}
    (hfinish : returns (finishMessage messageStart)
      (runCalls calls (finalState startMessage w, .empty)).1 = true) :
    Nested (runCalls calls (finalState startMessage w, .empty)).2.brackets ↔
      (runCalls calls (finalState startMessage w, .empty)).2.mismatches = 0 := by
  have hempty : History.empty.Follows (finalState startMessage w) :=
    History.follows_empty (of_returns (History.startMessage_nesting w) hstart)
  have hfollows := hempty.run calls
  have hdepth : (runCalls calls (finalState startMessage w, .empty)).1.depth = 0 := by
    have hcheck : wp (finishMessage messageStart)
        (fun _ _ ↦ (runCalls calls (finalState startMessage w, .empty)).1.depth = 0) (fun _ _ ↦ True)
        (runCalls calls (finalState startMessage w, .empty)).1 := by
      rw [finishMessage, wp_bind, wp_get, wp_ite]
      exact ⟨fun _ ↦ trivial, fun hdepth ↦ wp_mono wp_trivial (fun _ _ _ ↦ not_not.mp hdepth)
        fun _ _ _ ↦ trivial⟩
    exact of_returns hcheck hfinish
  constructor
  · intro hnested
    have hzero := hnested.excess_eq_zero
    have hexcess := hfollows.excess
    omega
  · intro hnone
    have hstack := hfollows.stack hnone
    rwa [hdepth] at hstack

/-- An array in an object, both closed. -/
theorem finishMessage_nested_array :
    Nested (runCalls [.objectStart 0, .arrayStart 0, .arrayEnd, .objectEnd]
      (finalState startMessage (emptyWriter 100), .empty)).2.brackets := by
  have hstart : returns startMessage (emptyWriter 100) = true := by decide +kernel
  have hfinish : returns (finishMessage 4)
      (runCalls [.objectStart 0, .arrayStart 0, .arrayEnd, .objectEnd]
        (finalState startMessage (emptyWriter 100), .empty)).1 = true := by
    decide +kernel
  have hnone : (runCalls [.objectStart 0, .arrayStart 0, .arrayEnd, .objectEnd]
      (finalState startMessage (emptyWriter 100), .empty)).2.mismatches = 0 := by
    decide +kernel
  exact (finishMessage_nested hstart _ hfinish).mpr hnone

/-- An array that is ended as an object: the end call throws, and the message is finished with the
array still open. -/
theorem open_array_is_finished :
    ¬ ∀ (w : DataWriter) (calls : List WriterCall) (messageStart : ℤ),
      returns startMessage w = true →
      returns (finishMessage messageStart)
        (runCalls calls (finalState startMessage w, .empty)).1 = true →
      Nested (runCalls calls (finalState startMessage w, .empty)).2.brackets := by
  intro hall
  have hnested := hall (emptyWriter 100) [.arrayStart 0, .objectEnd] 4 (by decide +kernel)
    (by decide +kernel)
  exact absurd hnested (by decide +kernel)

end DxApi.Writer
