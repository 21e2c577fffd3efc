import DxApi.Loader.TickLoader
import Mathlib.Data.Fintype.Basic

/-!
# How a loader ends

Three threads may assign `interruption_`: one that writes messages, one that calls `finish`, and the
manager, which reads what the server sends. Each reads the value before it acts on it, and none of
them holds a lock, so that the value may change in between. A step here is what a thread does up to
the next place where another one may come in between.

`finish` assigns `STOPPING` without reading the value first, and a token that `processResponse` does
not know ends the loader twice.
-/

namespace DxApi.Loader

/-! ## Threads -/

/-- Where the thread is that writes messages. -/
inductive WriterPhase
  | idle
  /-- In `flushOutputInternal`, behind the check of the value. -/
  | transmitting
  deriving DecidableEq, Repr

/-- Where the thread is that calls `finish`. -/
inductive FinishPhase
  | idle
  /-- `STOPPING` is assigned, and an open message cancelled. -/
  | stopping
  /-- In `endWriting`, before its flush. -/
  | ending
  /-- In the flush of `endWriting`, behind the check of the value. -/
  | transmitting
  /-- Behind `endWriting`, before the last flush. -/
  | terminated
  /-- In the last flush, behind the check of the value. -/
  | transmittingLast
  /-- Before `closeOutput`. -/
  | closing
  /-- In the loop of `LoaderManager::remove`. -/
  | waiting
  /-- `LoaderManager::remove` takes the loader out. -/
  | removing
  | cleaning
  /-- In an exception handler, before the value is assigned. -/
  | failed (value : Interruption)
  deriving DecidableEq, Repr

/-- Where the manager is. -/
inductive ManagerPhase
  | idle
  /-- In the loop of `processResponse`, before the next token. -/
  | reading
  /-- A token was read, its fields were not. -/
  | handling (command : UInt8)
  /-- The response was read, and the value is about to be assigned. -/
  | responding (value : Interruption)
  /-- In an exception handler, before the value is assigned. -/
  | failing (value : Interruption)
  deriving DecidableEq, Repr

/-- What the threads share, where they are, how many bytes were sent, and whether the response of the
server was recorded. -/
structure Threads where
  interruption : Interruption
  state : State
  /-- `ioStream_` is not `NULL`. -/
  connected : Bool
  inputClosed : Bool
  outputClosed : Bool
  /-- The loader is in `loaders_` of the manager. -/
  registered : Bool
  writer : WriterPhase
  finisher : FinishPhase
  manager : ManagerPhase
  sent : ℕ
  responded : Bool
  deriving DecidableEq, Repr

namespace Threads

/-- `interruption_ > STOPPING`. -/
def Ended (t : Threads) : Prop := t.interruption.atMostStopping = false

instance (t : Threads) : Decidable t.Ended := inferInstanceAs (Decidable (_ = _))

/-- Some thread is about to send. -/
def Sending (t : Threads) : Prop :=
  t.writer = .transmitting ∨ t.finisher = .transmitting ∨ t.finisher = .transmittingLast

instance (t : Threads) : Decidable t.Sending := inferInstanceAs (Decidable (_ ∨ _))

/-- A loader as `open` leaves it. -/
structure JustOpened (t : Threads) : Prop where
  interruption : t.interruption = .working
  state : t.state = .notInMessageBlock
  finisher : t.finisher = .idle
  manager : t.manager = .idle
  responded : t.responded = false

end Threads

/-! ## Steps -/

/-- The tokens that `processResponse` knows. -/
def knownTokens : List UInt8 := [1, 2, 4, 10, 11]

/-- `LOADER_RESPONSE_BLOCK_ID`. -/
def loaderResponseBlockId : UInt8 := 11

inductive Step
  /-- The writer checks the value and goes on to send. -/
  | flush
  | transmit (count : ℕ)
  | transmitFails
  | finish
  | decide
  | endBlock
  | endFails
  | finishTransmit (count : ℕ)
  | finishTransmitFails
  | flushLast
  | closeOutput
  | keepWaiting
  | stopWaiting
  | timeout
  | remove
  | cleanup
  | handle
  | poll
  | nothingToRead
  | token (command : UInt8)
  | fields
  | response (result : ℤ)
  | dispatchFails
  | disconnected
  | record
  | recordFailure
  deriving DecidableEq, Repr

/-- The steps that may assign the value. -/
def Step.assigns : Step → Bool
  | .finish | .cleanup | .handle | .token _ | .record | .recordFailure => true
  | _ => false

namespace Threads

/-- A flush sends if the value is at most `STOPPING`. -/
def flush (t : Threads) : Option Threads :=
  match t.writer with
  | .idle => if t.interruption.atMostStopping ∧ t.connected then
      some { t with writer := .transmitting }
    else some t
  | .transmitting => none

/-- `write` returns. -/
def transmit (count : ℕ) (t : Threads) : Option Threads :=
  if t.writer = .transmitting ∧ t.outputClosed = false then
    some { t with writer := .idle, sent := t.sent + count }
  else none

def transmitFails (t : Threads) : Option Threads :=
  if t.writer = .transmitting then some { t with writer := .idle } else none

/-- `finish` and `close`: the value is assigned whatever it was. -/
def finish (t : Threads) : Option Threads :=
  if t.finisher = .idle then
    if t.state.isWriting then
      some { t with interruption := .stopping, finisher := .stopping }
    else
      some { t with finisher := .cleaning }
  else none

/-- Whether there is still something to write. -/
def decideEnd (t : Threads) : Option Threads :=
  if t.finisher = .stopping then
    if t.interruption.atMostStopping ∧ t.connected ∧ t.outputClosed = false then
      some { t with finisher := .ending }
    else
      some { t with state := .finishedWriting, finisher := .removing }
  else none

/-- The message block is ended, and its flush checks the value. -/
def endBlock (t : Threads) : Option Threads :=
  if t.finisher = .ending then
    if t.interruption.atMostStopping ∧ t.connected then
      some { t with finisher := .transmitting }
    else
      some { t with state := .finishedWriting, finisher := .terminated }
  else none

/-- What `finish` writes does not fit in the buffer. -/
def endFails (t : Threads) : Option Threads :=
  if t.finisher = .ending then some { t with finisher := .failed .error } else none

/-- A `write` of `finish` returns. -/
def finishTransmit (count : ℕ) (t : Threads) : Option Threads :=
  if t.outputClosed then none
  else
    match t.finisher with
    | .transmitting =>
      some { t with state := .finishedWriting, finisher := .terminated, sent := t.sent + count }
    | .transmittingLast => some { t with finisher := .closing, sent := t.sent + count }
    | _ => none

def finishTransmitFails (t : Threads) : Option Threads :=
  if t.finisher = .transmitting ∨ t.finisher = .transmittingLast then
    some { t with finisher := .failed .serverDisconnected }
  else none

/-- The last flush of `finish` checks the value. -/
def flushLast (t : Threads) : Option Threads :=
  if t.finisher = .terminated then
    if t.interruption.atMostStopping ∧ t.connected then
      some { t with finisher := .transmittingLast }
    else
      some { t with finisher := .closing }
  else none

def closeOutput (t : Threads) : Option Threads :=
  if t.finisher = .closing then some { t with outputClosed := true, finisher := .waiting } else none

/-- One round of the loop of `LoaderManager::remove`. -/
def keepWaiting (t : Threads) : Option Threads :=
  if t.finisher = .waiting ∧ t.interruption.atMostStopping then some t else none

/-- The loop of `LoaderManager::remove` is left because the loader has ended. -/
def stopWaiting (t : Threads) : Option Threads :=
  if t.finisher = .waiting ∧ t.interruption.atMostStopping = false then
    some { t with finisher := .removing }
  else none

def timeout (t : Threads) : Option Threads :=
  if t.finisher = .waiting then some { t with finisher := .removing } else none

/-- The manager is locked out; a loader that is not there cannot be removed. -/
def remove (t : Threads) : Option Threads :=
  if t.finisher = .removing ∧ t.manager = .idle then
    if t.registered then
      some { t with registered := false, finisher := .cleaning }
    else
      some { t with finisher := .failed .error }
  else none

def cleanup (t : Threads) : Option Threads :=
  if t.finisher = .cleaning ∧ t.manager = .idle then
    some { t with
      registered := false
      connected := false
      interruption := if t.interruption = .working then .clientFinished else t.interruption
      finisher := .idle }
  else none

/-- An exception handler of `finish` assigns the value. -/
def handle (t : Threads) : Option Threads :=
  match t.finisher with
  | .failed value =>
    some { t with state := .finishedWriting, interruption := value, finisher := .cleaning }
  | _ => none

/-- The manager calls `processResponse`, which checks the value. -/
def poll (t : Threads) : Option Threads :=
  if t.manager = .idle ∧ t.registered then
    if t.interruption.atMostStopping ∧ t.connected then
      some { t with manager := .reading }
    else some t
  else none

def nothingToRead (t : Threads) : Option Threads :=
  if t.manager = .reading ∧ t.inputClosed = false then some { t with manager := .idle } else none

/-- A token is read; one that is not known ends the loader and closes the input, and the loop goes
on. -/
def token (command : UInt8) (t : Threads) : Option Threads :=
  if t.manager = .reading ∧ t.inputClosed = false then
    if command ∈ knownTokens then
      some { t with manager := .handling command }
    else
      some { t with interruption := .serverFinishedError, inputClosed := true }
  else none

/-- The fields of a notification are read, and the listeners are called. -/
def fields (t : Threads) : Option Threads :=
  match t.manager with
  | .handling command =>
    if command = loaderResponseBlockId then none else some { t with manager := .reading }
  | _ => none

/-- The response is read. -/
def response (result : ℤ) (t : Threads) : Option Threads :=
  if t.manager = .handling loaderResponseBlockId then
    some { t with
      manager := .responding (if result = -1 then .serverFinishedError else .serverFinishedOk) }
  else none

/-- A listener throws. -/
def dispatchFails (t : Threads) : Option Threads :=
  match t.manager with
  | .handling _ => some { t with manager := .failing .error }
  | _ => none

/-- The connection fails while a token or its fields are read. -/
def disconnected (t : Threads) : Option Threads :=
  match t.manager with
  | .reading | .handling _ => some { t with manager := .failing .serverDisconnected }
  | _ => none

/-- The value of the response is assigned. -/
def record (t : Threads) : Option Threads :=
  match t.manager with
  | .responding value => some { t with interruption := value, manager := .idle, responded := true }
  | _ => none

/-- An exception handler of `processResponse` assigns the value, and closes the connection if that is
what failed. -/
def recordFailure (t : Threads) : Option Threads :=
  match t.manager with
  | .failing value => some { t with
      interruption := value
      manager := .idle
      inputClosed := t.inputClosed || value == .serverDisconnected
      outputClosed := t.outputClosed || value == .serverDisconnected }
  | _ => none

/-- The state after a step, if the step can be taken. -/
def step (t : Threads) : Step → Option Threads
  | .flush => t.flush
  | .transmit count => t.transmit count
  | .transmitFails => t.transmitFails
  | .finish => t.finish
  | .decide => t.decideEnd
  | .endBlock => t.endBlock
  | .endFails => t.endFails
  | .finishTransmit count => t.finishTransmit count
  | .finishTransmitFails => t.finishTransmitFails
  | .flushLast => t.flushLast
  | .closeOutput => t.closeOutput
  | .keepWaiting => t.keepWaiting
  | .stopWaiting => t.stopWaiting
  | .timeout => t.timeout
  | .remove => t.remove
  | .cleanup => t.cleanup
  | .handle => t.handle
  | .poll => t.poll
  | .nothingToRead => t.nothingToRead
  | .token command => t.token command
  | .fields => t.fields
  | .response result => t.response result
  | .dispatchFails => t.dispatchFails
  | .disconnected => t.disconnected
  | .record => t.record
  | .recordFailure => t.recordFailure

/-- A property of each step of a run; a run ends where a step cannot be taken. -/
def EachStep (property : Threads → Step → Threads → Prop) : List Step → Threads → Prop
  | [], _ => True
  | next :: steps, t =>
    match t.step next with
    | none => True
    | some t' => property t next t' ∧ EachStep property steps t'

/-- After the end the value stays and nothing is sent, and nobody waits for a response that has been
recorded. -/
def Final (t : Threads) (next : Step) (t' : Threads) : Prop :=
  (t.Ended → t'.interruption = t.interruption ∧ t'.sent = t.sent) ∧
    (next = .keepWaiting → t.responded = false)

/-- The loader may be ended with a value: no other value has ended it, and no thread is about to
send. -/
def MayEnd (t : Threads) (value : Interruption) : Prop :=
  (t.Ended → t.interruption = value) ∧ ¬ t.Sending

/-- The steps that do not come in each other's way: `finish` does not reopen a loader that has ended,
and a loader is ended while nobody sends, and not with a second value. -/
def Orderly (t : Threads) (next : Step) : Prop :=
  match next with
  | .finish => ¬ (t.Ended ∧ t.finisher = .idle ∧ t.state.isWriting = true)
  | .token command => command ∉ knownTokens → t.MayEnd .serverFinishedError
  | .record => ∀ value, t.manager = .responding value → t.MayEnd value
  | .recordFailure => ∀ value, t.manager = .failing value → t.MayEnd value
  | .handle => ∀ value, t.finisher = .failed value → t.MayEnd value
  | _ => True

/-! Whether a run is orderly, and what is final in it, can be computed. -/

instance : Fintype Interruption where
  elems := {.working, .stopping, .clientFinished, .serverFinishedOk, .error, .serverFinishedError,
    .serverDisconnected, .ioError}
  complete := by
    intro value
    cases value <;> decide

instance (t : Threads) (next : Step) (t' : Threads) : Decidable (Final t next t') :=
  inferInstanceAs (Decidable (_ ∧ _))

instance (t : Threads) (value : Interruption) : Decidable (t.MayEnd value) :=
  inferInstanceAs (Decidable (_ ∧ _))

instance (t : Threads) (next : Step) : Decidable (t.Orderly next) := by
  cases next <;> dsimp only [Orderly] <;> infer_instance

instance EachStep.decidable (property : Threads → Step → Threads → Prop)
    [∀ t next t', Decidable (property t next t')] (steps : List Step) (t : Threads) :
    Decidable (EachStep property steps t) :=
  match steps with
  | [] => isTrue trivial
  | next :: steps =>
    match hstep : t.step next with
    | none => isTrue (by rw [EachStep, hstep]; trivial)
    | some t' =>
      have := EachStep.decidable property steps t'
      decidable_of_iff (property t next t' ∧ EachStep property steps t') (by rw [EachStep, hstep])

/-! ## The end is final -/

/-- What orderly steps keep. -/
structure Invariant (t : Threads) : Prop where
  /-- Once the loader has ended nobody is about to send. -/
  quiet : t.Ended → ¬ t.Sending
  /-- A response that was recorded has ended the loader. -/
  responded : t.responded = true → t.Ended
  /-- As long as the loader is working `finish` was not called. -/
  working : t.interruption = .working → t.state.isWriting = true ∧ t.finisher = .idle
  /-- The values about to be assigned end the loader. -/
  response : ∀ value, t.manager = .responding value → value.atMostStopping = false
  failure : ∀ value, t.manager = .failing value → value.atMostStopping = false
  finishFailure : ∀ value, t.finisher = .failed value → value.atMostStopping = false

theorem JustOpened.invariant {t : Threads} (h : t.JustOpened) : t.Invariant := by
  constructor
  · intro hended
    rw [Ended, h.interruption] at hended
    cases hended
  · intro hresponded
    rw [h.responded] at hresponded
    cases hresponded
  · intro _
    rw [h.state, h.finisher]
    exact ⟨rfl, rfl⟩
  · intro value hmanager
    rw [h.manager] at hmanager
    cases hmanager
  · intro value hmanager
    rw [h.manager] at hmanager
    cases hmanager
  · intro value hfinisher
    rw [h.finisher] at hfinisher
    cases hfinisher

/-- The step leaves the value as it is. -/
structure Continues (t t' : Threads) : Prop where
  interruption : t'.interruption = t.interruption
  responded : t'.responded = t.responded
  sent : t'.sent = t.sent ∨ t.Sending
  sending : t'.Sending → t.Sending ∨ ¬ t.Ended
  working : t.finisher = .idle → t.state.isWriting = true →
    t'.state.isWriting = true ∧ t'.finisher = .idle
  response : ∀ value, t'.manager = .responding value →
    t.manager = .responding value ∨ value.atMostStopping = false
  failure : ∀ value, t'.manager = .failing value →
    t.manager = .failing value ∨ value.atMostStopping = false
  finishFailure : ∀ value, t'.finisher = .failed value →
    t.finisher = .failed value ∨ value.atMostStopping = false

/-- The value is assigned, and ends the loader. -/
structure Ends (value : Interruption) (t t' : Threads) : Prop where
  ended : value.atMostStopping = false
  interruption : t'.interruption = value
  sent : t'.sent = t.sent
  sending : t'.Sending → t.Sending
  manager : t'.manager = .idle ∨ t'.manager = t.manager
  finisher : t'.finisher = .cleaning ∨ t'.finisher = t.finisher

namespace Continues

theorem ended_iff {t t' : Threads} (h : t.Continues t') : t'.Ended ↔ t.Ended := by
  rw [Ended, Ended, h.interruption]

theorem invariant {t t' : Threads} (h : t.Continues t') (hinv : t.Invariant) : t'.Invariant where
  quiet := by
    intro hended hsending
    have hbefore : t.Ended := h.ended_iff.mp hended
    apply Or.elim (h.sending hsending)
    · exact hinv.quiet hbefore
    · intro hnot
      exact hnot hbefore
  responded := by
    rw [h.responded, h.ended_iff]
    exact hinv.responded
  working := by
    rw [h.interruption]
    intro hworking
    have hbefore := hinv.working hworking
    exact h.working hbefore.2 hbefore.1
  response := by
    intro value hmanager
    apply Or.elim (h.response value hmanager) (hinv.response value) id
  failure := by
    intro value hmanager
    apply Or.elim (h.failure value hmanager) (hinv.failure value) id
  finishFailure := by
    intro value hfinisher
    apply Or.elim (h.finishFailure value hfinisher) (hinv.finishFailure value) id

/-- After the end nobody is about to send, so that nothing is sent. -/
theorem kept {t t' : Threads} (h : t.Continues t') (hinv : t.Invariant) (hended : t.Ended) :
    t'.interruption = t.interruption ∧ t'.sent = t.sent := by
  have hsent : t'.sent = t.sent := by
    apply Or.elim h.sent id
    intro hsending
    exact absurd hsending (hinv.quiet hended)
  exact ⟨h.interruption, hsent⟩

end Continues

namespace Ends

theorem invariant {t t' : Threads} {value : Interruption} (h : Ends value t t')
    (hinv : t.Invariant) (hquiet : ¬ t.Sending) : t'.Invariant where
  quiet := by
    intro _ hsending
    exact hquiet (h.sending hsending)
  responded := by
    intro _
    rw [Ended, h.interruption]
    exact h.ended
  working := by
    intro hworking
    have hended := h.ended
    rw [← h.interruption, hworking] at hended
    cases hended
  response := by
    intro value' hmanager
    apply Or.elim h.manager
    · intro hidle
      rw [hidle] at hmanager
      cases hmanager
    · intro hsame
      exact hinv.response value' (hsame ▸ hmanager)
  failure := by
    intro value' hmanager
    apply Or.elim h.manager
    · intro hidle
      rw [hidle] at hmanager
      cases hmanager
    · intro hsame
      exact hinv.failure value' (hsame ▸ hmanager)
  finishFailure := by
    intro value' hfinisher
    apply Or.elim h.finisher
    · intro hcleaning
      rw [hcleaning] at hfinisher
      cases hfinisher
    · intro hsame
      exact hinv.finishFailure value' (hsame ▸ hfinisher)

theorem kept {t t' : Threads} {value : Interruption} (h : Ends value t t') (hmay : t.MayEnd value)
    (hended : t.Ended) : t'.interruption = t.interruption ∧ t'.sent = t.sent := by
  have hvalue : t.interruption = value := hmay.1 hended
  exact ⟨h.interruption.trans hvalue.symm, h.sent⟩

end Ends

theorem step_continues {t t' : Threads} {next : Step} (hstep : t.step next = some t')
    (hassigns : next.assigns = false) : t.Continues t' := by
  cases next
  case flush | transmit | transmitFails =>
    simp only [step, flush, transmit, transmitFails] at hstep
    constructor <;> grind [Sending, Ended]
  case decide | endBlock | endFails | finishTransmit | finishTransmitFails | flushLast =>
    simp only [step, decideEnd, endBlock, endFails, finishTransmit, finishTransmitFails, flushLast]
      at hstep
    constructor <;> grind [Sending, Ended, Interruption.atMostStopping]
  case closeOutput | keepWaiting | stopWaiting | timeout | remove =>
    simp only [step, closeOutput, keepWaiting, stopWaiting, timeout, remove] at hstep
    constructor <;> grind [Sending, Ended, Interruption.atMostStopping]
  case poll | nothingToRead | fields | response | dispatchFails | disconnected =>
    simp only [step, poll, nothingToRead, fields, response, dispatchFails, disconnected] at hstep
    constructor <;> grind [Sending, Ended, Interruption.atMostStopping]
  all_goals cases hassigns

theorem token_known_continues {t t' : Threads} {command : UInt8} (hknown : command ∈ knownTokens)
    (hstep : t.token command = some t') : t.Continues t' := by
  simp only [token, hknown] at hstep
  constructor <;> grind [Sending, Ended]

theorem token_unknown_ends {t t' : Threads} {command : UInt8} (hunknown : command ∉ knownTokens)
    (hstep : t.token command = some t') : Ends .serverFinishedError t t' := by
  simp only [token, hunknown] at hstep
  constructor <;> grind [Sending, Interruption.atMostStopping]

theorem record_ends {t t' : Threads} (hinv : t.Invariant) (hstep : t.record = some t') :
    ∃ value, t.manager = .responding value ∧ Ends value t t' := by
  unfold record at hstep
  split at hstep
  · next value hmanager =>
    have hended := hinv.response value hmanager
    refine ⟨value, hmanager, ?_⟩
    constructor <;> grind [Sending]
  · cases hstep

theorem recordFailure_ends {t t' : Threads} (hinv : t.Invariant)
    (hstep : t.recordFailure = some t') : ∃ value, t.manager = .failing value ∧ Ends value t t' := by
  unfold recordFailure at hstep
  split at hstep
  · next value hmanager =>
    have hended := hinv.failure value hmanager
    refine ⟨value, hmanager, ?_⟩
    constructor <;> grind [Sending]
  · cases hstep

theorem handle_ends {t t' : Threads} (hinv : t.Invariant) (hstep : t.handle = some t') :
    ∃ value, t.finisher = .failed value ∧ Ends value t t' := by
  unfold handle at hstep
  split at hstep
  · next value hfinisher =>
    have hended := hinv.finishFailure value hfinisher
    refine ⟨value, hfinisher, ?_⟩
    constructor <;> grind [Sending]
  · cases hstep

/-- `cleanup` finds the loader stopped: it is only called by `finish`. -/
theorem cleanup_continues {t t' : Threads} (hinv : t.Invariant) (hstep : t.cleanup = some t') :
    t.Continues t' := by
  have hworking := hinv.working
  simp only [cleanup] at hstep
  constructor <;> grind [Sending, Ended]

/-- `finish` on a loader that is not writing any more. -/
theorem finish_continues {t t' : Threads} (hwriting : t.state.isWriting = false)
    (hstep : t.finish = some t') : t.Continues t' := by
  simp only [finish, hwriting] at hstep
  constructor <;> grind [Sending, Ended]

theorem finish_stops {t t' : Threads} (hwriting : t.state.isWriting = true)
    (hstep : t.finish = some t') :
    t.finisher = .idle ∧ t' = { t with interruption := .stopping, finisher := .stopping } := by
  simp only [finish, hwriting] at hstep
  grind


theorem Invariant.not_responded {t : Threads} (h : t.Invariant) (hended : ¬ t.Ended) :
    t.responded = false := by
  apply Bool.eq_false_iff.mpr
  intro hresponded
  exact hended (h.responded hresponded)

theorem finish_invariant {t t' : Threads} (hinv : t.Invariant) (horderly : t.Orderly .finish)
    (hwriting : t.state.isWriting = true) (hstep : t.finish = some t') :
    ¬ t.Ended ∧ t'.Invariant := by
  have hstops := finish_stops hwriting hstep
  have hended : ¬ t.Ended := by
    intro hended
    exact horderly ⟨hended, hstops.1, hwriting⟩
  have hresponded := hinv.not_responded hended
  have hresponse := hinv.response
  have hfailure := hinv.failure
  apply And.intro hended
  rw [hstops.2]
  constructor <;> grind [Ended, Interruption.atMostStopping]

theorem keepWaiting_not_responded {t t' : Threads} (hinv : t.Invariant)
    (hstep : t.keepWaiting = some t') : t.responded = false := by
  apply hinv.not_responded
  unfold keepWaiting at hstep
  grind [Ended]

/-- A step that comes in no other's way keeps the value, sends nothing after the end, and leaves
what made that so. -/
theorem step_orderly {t t' : Threads} {next : Step} (hinv : t.Invariant)
    (horderly : t.Orderly next) (hstep : t.step next = some t') :
    (t.Ended → t'.interruption = t.interruption ∧ t'.sent = t.sent) ∧ t'.Invariant := by
  have hcontinues : t.Continues t' → (t.Ended → t'.interruption = t.interruption ∧
      t'.sent = t.sent) ∧ t'.Invariant := fun h ↦ ⟨h.kept hinv, h.invariant hinv⟩
  have hends : ∀ {value}, Ends value t t' → t.MayEnd value →
      (t.Ended → t'.interruption = t.interruption ∧ t'.sent = t.sent) ∧ t'.Invariant :=
    fun h hmay ↦ ⟨h.kept hmay, h.invariant hinv hmay.2⟩
  cases hassigns : next.assigns with
  | false => exact hcontinues (step_continues hstep hassigns)
  | true =>
    cases next
    case finish =>
      cases hwriting : t.state.isWriting with
      | false => exact hcontinues (finish_continues hwriting hstep)
      | true =>
        have h := finish_invariant hinv horderly hwriting hstep
        exact ⟨fun hended ↦ absurd hended h.1, h.2⟩
    case cleanup => exact hcontinues (cleanup_continues hinv hstep)
    case token command =>
      by_cases hknown : command ∈ knownTokens
      · exact hcontinues (token_known_continues hknown hstep)
      · exact hends (token_unknown_ends hknown hstep) (horderly hknown)
    case handle =>
      obtain ⟨value, hfailed, h⟩ := handle_ends hinv hstep
      exact hends h (horderly value hfailed)
    case record =>
      obtain ⟨value, hresponding, h⟩ := record_ends hinv hstep
      exact hends h (horderly value hresponding)
    case recordFailure =>
      obtain ⟨value, hfailing, h⟩ := recordFailure_ends hinv hstep
      exact hends h (horderly value hfailing)
    all_goals cases hassigns

theorem step_final {t t' : Threads} {next : Step} (hinv : t.Invariant)
    (horderly : t.Orderly next) (hstep : t.step next = some t') : Final t next t' := by
  apply And.intro (step_orderly hinv horderly hstep).1
  intro hwaiting
  subst hwaiting
  exact keepWaiting_not_responded hinv hstep

theorem eachStep_final {t : Threads} {steps : List Step} (hinv : t.Invariant)
    (horderly : EachStep (fun t next _ ↦ t.Orderly next) steps t) : EachStep Final steps t := by
  induction steps generalizing t with
  | nil => trivial
  | cons next steps ih =>
    unfold EachStep at horderly ⊢
    cases hstep : t.step next with
    | none => trivial
    | some t' =>
      rw [hstep] at horderly
      exact ⟨step_final hinv horderly.1 hstep, ih (step_orderly hinv horderly.1 hstep).2 horderly.2⟩

/-- The end of a loader is final in every run whose steps do not come in each other's way. -/
theorem end_final {t : Threads} {steps : List Step} (hopened : t.JustOpened)
    (horderly : EachStep (fun t next _ ↦ t.Orderly next) steps t) : EachStep Final steps t :=
  eachStep_final hopened.invariant horderly

/-- A loader just opened. -/
def opened : Threads where
  interruption := .working
  state := .notInMessageBlock
  connected := true
  inputClosed := false
  outputClosed := false
  registered := true
  writer := .idle
  finisher := .idle
  manager := .idle
  sent := 0
  responded := false

theorem opened_justOpened : opened.JustOpened := by constructor <;> rfl

/-- A client that writes and finishes, and a server that answers when the output is closed. -/
def orderlySteps : List Step :=
  [.flush, .transmit 100, .finish, .decide, .endBlock, .finishTransmit 20, .flushLast,
    .finishTransmit 5, .closeOutput, .keepWaiting, .poll, .token 11, .response 0, .record,
    .stopWaiting, .remove, .cleanup, .finish, .cleanup]

theorem end_final_finished :
    (orderlySteps.foldlM step opened).map (fun t ↦ (t.interruption, t.sent)) =
      some (.serverFinishedOk, 125) ∧ EachStep Final orderlySteps opened := by
  have horderly : EachStep (fun t next _ ↦ t.Orderly next) orderlySteps opened := by decide +kernel
  exact ⟨by decide, end_final opened_justOpened horderly⟩

/-- A server that ends the loader before the client finishes it. -/
def reopeningSteps : List Step := [.poll, .token 11, .response 0, .record, .finish]

/-- `finish` makes an end that the server has set undone. -/
theorem finish_reopens :
    ¬ ∀ t steps, JustOpened t → EachStep Final steps t := by
  intro hfinal
  have hreopened : ¬ EachStep Final reopeningSteps opened := by decide +kernel
  exact hreopened (hfinal opened reopeningSteps opened_justOpened)

end Threads

end DxApi.Loader
