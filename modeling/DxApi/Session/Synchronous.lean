import DxApi.Lib.Runs
import Mathlib.Logic.Function.Basic
import Mathlib.Tactic.Ring

/-!
# Waiting for an answer

`getStreamsSynchronous` and `getPropertySynchronous` test `isWorking()`, send a request and wait until
the counter of the answers has reached the number of the request. The session thread counts the
answers; it ends when the connection does, and nothing counts from then on. The steps of the callers
and of the session thread interleave.
-/

namespace DxApi.Session

inductive RequestKind
  | streamDef
  | property
  deriving DecidableEq, Repr

/-- What is thrown while the session thread reads or writes. -/
inductive SessionFailure
  | disconnected
  | ioStream
  | runtimeError
  | other
  deriving DecidableEq, Repr

/-- A request is sent, or an exception is thrown before or after it was counted. -/
inductive SendOutcome
  | sent
  | failed (counted : Bool) (failure : SessionFailure)
  deriving DecidableEq, Repr

/-- Where the session thread is: before `threadProc`, at the head of its loop, in `processInput`,
behind it, behind the loop, in `stopped`, and behind the assignment of `isRunning_` there. -/
inductive ThreadPoint
  | created
  | loopHead
  | processing
  | requesting
  | closing
  | stopping
  | finished
  deriving DecidableEq, Repr

/-- Where a caller is: in no call, behind the test of `isWorking()`, or in its wait loop. -/
inductive CallerPoint
  | idle
  | working (kind : RequestKind)
  | waiting (kind : RequestKind) (requestId : ℕ)
  deriving DecidableEq, Repr

structure SessionThreads where
  isRunning : Bool
  shouldStop : Bool
  interrupted : Bool
  /-- `ioStream_` is not `NULL`. -/
  connected : Bool
  neededStreamDefs : List String
  nRequestsSent : RequestKind → ℕ
  nRequestsReceived : RequestKind → ℕ
  thread : ThreadPoint
  callers : ℕ → CallerPoint

/-- The state when `start` creates the thread: it has sent one request. -/
def SessionThreads.opened : SessionThreads where
  isRunning := false
  shouldStop := false
  interrupted := false
  connected := true
  neededStreamDefs := []
  nRequestsSent := Function.update (fun _ ↦ 0) .streamDef 1
  nRequestsReceived _ := 0
  thread := .created
  callers _ := .idle

namespace SessionThreads

def isWorking (s : SessionThreads) : Bool := s.isRunning && !(s.shouldStop || s.interrupted)

def countSent (kind : RequestKind) (s : SessionThreads) : SessionThreads :=
  { s with nRequestsSent := Function.update s.nRequestsSent kind (s.nRequestsSent kind + 1) }

def countReceived (kind : RequestKind) (s : SessionThreads) : SessionThreads :=
  { s with nRequestsReceived := Function.update s.nRequestsReceived kind (s.nRequestsReceived kind + 1) }

/-- `requestGetStreams` or `requestGetProperty`, which runs under the lock of the writer. -/
def sendRequest (kind : RequestKind) (s : SessionThreads) : SendOutcome → SessionThreads × Option SessionFailure
  | .sent => (s.countSent kind, none)
  | .failed counted failure => (if counted then s.countSent kind else s, some failure)

def closeConnection (s : SessionThreads) : SessionThreads := { s with connected := false }

def cleanup (s : SessionThreads) : SessionThreads := { s.closeConnection with neededStreamDefs := [] }

/-- `propertyRequestCompleted` and `streamDefRequestCompleted`: the difference as a signed number. -/
def requestCompleted (s : SessionThreads) (kind : RequestKind) (requestId : ℕ) : Bool :=
  0 ≤ Int.bmod ((s.nRequestsReceived kind : ℤ) - requestId) (2 ^ 64)

end SessionThreads

open SessionThreads

/-! ## The session thread -/

/-- What `processInput` finds. -/
inductive ServerInput
  | noData
  | streamPropertyChanged (outcome : SendOutcome)
  | streamDeleted
  | streamCreated (key : String)
  | streamRenamed (newKey : String)
  | streamsDefinition (failure : Option SessionFailure)
  | streamProperty
  | sessionClosed
  | streamsChanged (outcome : SendOutcome)
  | unexpectedToken
  /-- The token, or what follows it, cannot be read. -/
  | unreadable (failure : SessionFailure)

inductive ProcessResult
  | ok
  | noData
  | finished
  deriving DecidableEq, Repr

/-- The handlers of `processInput`. -/
def caught (s : SessionThreads) : Option SessionFailure → SessionThreads × ProcessResult
  | none => (s, .ok)
  | some .disconnected => (s.closeConnection, .finished)
  | some .ioStream => (s.closeConnection, .finished)
  | some .runtimeError => (s, .ok)
  | some .other => (s, .finished)

def needStream (key : String) (s : SessionThreads) : SessionThreads :=
  { s with neededStreamDefs := if key ∈ s.neededStreamDefs then s.neededStreamDefs else s.neededStreamDefs ++ [key] }

/-- The `receive_` function for a token, in the `try` block. -/
def receiveInput (s : SessionThreads) : ServerInput → SessionThreads × ProcessResult
  | .noData => (s, .noData)
  | .streamPropertyChanged outcome =>
    let (s', failure) := s.sendRequest .streamDef outcome
    caught s' failure
  | .streamDeleted => (s, .ok)
  | .streamCreated key => (needStream key s, .ok)
  | .streamRenamed newKey => (needStream newKey s, .ok)
  -- counted also when it is thrown again
  | .streamsDefinition failure => caught (s.countReceived .streamDef) failure
  -- what is thrown is dropped
  | .streamProperty => (s.countReceived .property, .ok)
  | .sessionClosed => (s, .finished)
  | .streamsChanged outcome =>
    let (s', failure) := s.sendRequest .streamDef outcome
    caught s' failure
  | .unexpectedToken => (s.cleanup, .finished)
  | .unreadable failure => caught s (some failure)

def processInput (s : SessionThreads) (input : ServerInput) : SessionThreads × ProcessResult :=
  if s.interrupted || !s.connected then (s, .finished) else receiveInput s input

/-! ## Steps -/

/-- A step of the session thread, of the thread that stops it, or of a caller. -/
inductive SessionStep
  | threadProc
  | testShouldStop
  | processInput (input : ServerInput)
  | requestNeeded (outcome : SendOutcome)
  | close
  | stopped
  | stop
  | testWorking (caller : ℕ) (kind : RequestKind)
  | request (caller : ℕ) (outcome : SendOutcome)
  | look (caller : ℕ)

def setCaller (caller : ℕ) (point : CallerPoint) (s : SessionThreads) : SessionThreads :=
  { s with callers := Function.update s.callers caller point }

/-- Behind `processInput`. -/
def afterInput : SessionThreads × ProcessResult → SessionThreads
  | (s, .finished) => { s with thread := .closing }
  | (s, _) => { s with thread := .requesting }

/-- Behind the request for the streams that are needed; an exception leaves the loop past `close()`. -/
def afterRequest : SessionThreads × Option SessionFailure → SessionThreads
  | (s, none) => { s with thread := .loopHead }
  | (s, some _) => { s with thread := .stopping }

def requestNeeded (s : SessionThreads) (outcome : SendOutcome) : SessionThreads :=
  if s.neededStreamDefs = [] then { s with thread := .loopHead }
  else afterRequest (sendRequest .streamDef { s with neededStreamDefs := [] } outcome)

/-- A caller that found the session working sends its request; an exception leaves the call. -/
def callerRequest (s : SessionThreads) (caller : ℕ) (outcome : SendOutcome) : CallerPoint → SessionThreads
  | .working kind =>
    match s.sendRequest kind outcome with
    | (s', none) => setCaller caller (.waiting kind (s'.nRequestsSent kind)) s'
    | (s', some _) => setCaller caller .idle s'
  | _ => s

/-- A caller looks whether its answer was counted. -/
def callerLook (s : SessionThreads) (caller : ℕ) : CallerPoint → SessionThreads
  | .waiting kind requestId => if s.requestCompleted kind requestId then setCaller caller .idle s else s
  | _ => s

/-- A step that cannot be taken changes nothing. -/
def SessionThreads.step (s : SessionThreads) : SessionStep → SessionThreads
  | .threadProc => if s.thread = .created then { s with isRunning := true, thread := .loopHead } else s
  | .testShouldStop =>
    if s.thread = .loopHead then { s with thread := if s.shouldStop then .closing else .processing } else s
  | .processInput input => if s.thread = .processing then afterInput (Session.processInput s input) else s
  | .requestNeeded outcome => if s.thread = .requesting then Session.requestNeeded s outcome else s
  | .close => if s.thread = .closing then { s.cleanup with thread := .stopping } else s
  | .stopped => if s.thread = .stopping then { s with isRunning := false, thread := .finished } else s
  | .stop => { s with shouldStop := true }
  | .testWorking caller kind =>
    if s.callers caller = .idle ∧ s.isWorking then setCaller caller (.working kind) s else s
  | .request caller outcome => callerRequest s caller outcome (s.callers caller)
  | .look caller => callerLook s caller (s.callers caller)

/-- No caller waits for an answer of a session that has ended. -/
def NobodyStranded (s : SessionThreads) : Prop :=
  s.thread = .finished → ∀ caller kind requestId, s.callers caller = .waiting kind requestId →
    requestId ≤ s.nRequestsReceived kind

/-- The session does not end while an answer is outstanding, and it has not ended when a caller that
found it working sends a request that is not counted as answered already. -/
def Admits (s : SessionThreads) : SessionStep → Prop
  | .stopped => s.thread = .stopping → ∀ caller kind requestId, s.callers caller = .waiting kind requestId →
    requestId ≤ s.nRequestsReceived kind
  | .request caller .sent => s.thread = .finished → ∀ kind, s.callers caller = .working kind →
    s.nRequestsSent kind < s.nRequestsReceived kind
  | _ => True

section

variable {s s' : SessionThreads}

/-- A step that lets nobody wait anew. -/
theorem NobodyStranded.of_frame (h : NobodyStranded s) (hthread : s'.thread = .finished → s.thread = .finished)
    (hreceived : s'.nRequestsReceived = s.nRequestsReceived)
    (hcallers : ∀ caller kind requestId, s'.callers caller = .waiting kind requestId →
      s.callers caller = .waiting kind requestId) : NobodyStranded s' := by
  intro hfinished caller kind requestId hwaiting
  rw [hreceived]
  exact h (hthread hfinished) caller kind requestId (hcallers caller kind requestId hwaiting)

theorem nobodyStranded_of_running (h : s.thread ≠ .finished) : NobodyStranded s :=
  fun hfinished ↦ absurd hfinished h

theorem setCaller_callers (caller : ℕ) (point : CallerPoint) :
    (setCaller caller point s).callers = Function.update s.callers caller point := rfl

/-- A caller that is not in its wait loop after the step. -/
theorem waiting_of_setCaller {caller caller' requestId : ℕ} {point : CallerPoint} {kind : RequestKind}
    (hpoint : ∀ kind requestId, point ≠ .waiting kind requestId)
    (h : (setCaller caller point s).callers caller' = .waiting kind requestId) :
    s.callers caller' = .waiting kind requestId := by
  by_cases hsame : caller' = caller
  · subst hsame
    rw [setCaller_callers, Function.update_self] at h
    exact absurd h (hpoint kind requestId)
  · rwa [setCaller_callers, Function.update_of_ne hsame] at h

theorem NobodyStranded.setCaller (h : NobodyStranded s) {caller : ℕ} {point : CallerPoint}
    (hpoint : ∀ kind requestId, point ≠ .waiting kind requestId) :
    NobodyStranded (setCaller caller point s) :=
  of_frame h (fun hfinished ↦ hfinished) rfl fun _ _ _ ↦ waiting_of_setCaller hpoint

theorem afterInput_running (r : SessionThreads × ProcessResult) : (afterInput r).thread ≠ .finished := by
  obtain ⟨s, result⟩ := r
  cases result <;> exact ThreadPoint.noConfusion

theorem requestNeeded_running (s : SessionThreads) (outcome : SendOutcome) :
    (requestNeeded s outcome).thread ≠ .finished := by
  rw [requestNeeded]
  split
  · exact ThreadPoint.noConfusion
  · generalize sendRequest _ _ outcome = r
    obtain ⟨s', failure⟩ := r
    cases failure <;> exact ThreadPoint.noConfusion

theorem sendRequest_thread (kind : RequestKind) (outcome : SendOutcome) :
    (sendRequest kind s outcome).1.thread = s.thread ∧
      (sendRequest kind s outcome).1.nRequestsReceived = s.nRequestsReceived ∧
      (sendRequest kind s outcome).1.callers = s.callers := by
  cases outcome with
  | sent => exact ⟨rfl, rfl, rfl⟩
  | failed counted failure =>
    cases counted with
    | true => exact ⟨rfl, rfl, rfl⟩
    | false => exact ⟨rfl, rfl, rfl⟩

/-- A thread step that is not the last one. -/
theorem NobodyStranded.thread_step (h : NobodyStranded s) {point : ThreadPoint}
    (hnext : s.thread = point → s'.thread ≠ .finished) :
    NobodyStranded (if s.thread = point then s' else s) := by
  split
  next hpoint => exact nobodyStranded_of_running (hnext hpoint)
  next => exact h

theorem testWorking_stranded (h : NobodyStranded s) (caller : ℕ) (kind : RequestKind) :
    NobodyStranded (s.step (.testWorking caller kind)) := by
  rw [step]
  split
  next =>
    exact h.setCaller fun _ _ ↦ CallerPoint.noConfusion
  next => exact h

theorem look_stranded (h : NobodyStranded s) (caller : ℕ) : NobodyStranded (s.step (.look caller)) := by
  rw [step, callerLook.eq_def]
  split
  next kind requestId _ =>
    split
    next =>
      exact h.setCaller fun _ _ ↦ CallerPoint.noConfusion
    next => exact h
  next => exact h

/-- The last step of the session thread. -/
theorem stopped_stranded_iff (h : NobodyStranded s) : NobodyStranded (s.step .stopped) ↔ Admits s .stopped := by
  rw [step]
  by_cases hstopping : s.thread = .stopping
  · rw [if_pos hstopping]
    constructor
    · exact fun hnobody _ ↦ hnobody rfl
    · exact fun hadmits _ ↦ hadmits hstopping
  · rw [if_neg hstopping]
    exact iff_of_true h fun hnot ↦ absurd hnot hstopping

/-- A caller sends its request and begins to wait. -/
theorem request_sent_stranded_iff (h : NobodyStranded s) (caller : ℕ) :
    NobodyStranded (s.step (.request caller .sent)) ↔ Admits s (.request caller .sent) := by
  rw [step]
  cases hcaller : s.callers caller with
  | idle =>
    refine iff_of_true h fun _ kind hworking ↦ ?_
    rw [hcaller] at hworking
    cases hworking
  | waiting kind requestId =>
    refine iff_of_true h fun _ kind hworking ↦ ?_
    rw [hcaller] at hworking
    cases hworking
  | working kind =>
    have hsent : (s.countSent kind).nRequestsSent kind = s.nRequestsSent kind + 1 := Function.update_self ..
    constructor
    · intro hnobody hfinished kind' hworking
      rw [hcaller] at hworking
      cases hworking
      have hid := hnobody hfinished caller kind _ (Function.update_self ..)
      rw [hsent] at hid
      exact hid
    · intro hadmits hfinished caller' kind' requestId hwaiting
      by_cases hsame : caller' = caller
      · subst hsame
        rw [callerRequest, sendRequest] at hwaiting
        dsimp only at hwaiting
        rw [setCaller_callers, Function.update_self, hsent] at hwaiting
        cases hwaiting
        exact hadmits hfinished kind hcaller
      · rw [callerRequest, sendRequest] at hwaiting
        dsimp only at hwaiting
        rw [setCaller_callers, Function.update_of_ne hsame] at hwaiting
        exact h hfinished caller' kind' requestId hwaiting

theorem request_failed_stranded (h : NobodyStranded s) (caller : ℕ) (counted : Bool) (failure : SessionFailure) :
    NobodyStranded (s.step (.request caller (.failed counted failure))) := by
  rw [step]
  cases s.callers caller with
  | idle => exact h
  | waiting kind requestId => exact h
  | working kind =>
    obtain ⟨hthread, hreceived, hcallers⟩ := sendRequest_thread (s := s) kind (.failed counted failure)
    have hsent : NobodyStranded (s.sendRequest kind (.failed counted failure)).1 := by
      apply h.of_frame
      · exact fun hfinished ↦ hthread.symm.trans hfinished
      · exact hreceived
      · rw [hcallers]
        exact fun _ _ _ ↦ id
    exact hsent.setCaller fun _ _ ↦ CallerPoint.noConfusion

/-- A step strands nobody if and only if it is admitted. -/
theorem step_stranded_iff (h : NobodyStranded s) (action : SessionStep) :
    NobodyStranded (s.step action) ↔ Admits s action := by
  cases action with
  | threadProc => exact iff_of_true (h.thread_step fun _ ↦ ThreadPoint.noConfusion) trivial
  | testShouldStop =>
    refine iff_of_true (h.thread_step fun _ ↦ ?_) trivial
    cases s.shouldStop <;> exact ThreadPoint.noConfusion
  | processInput input => exact iff_of_true (h.thread_step fun _ ↦ afterInput_running _) trivial
  | requestNeeded outcome => exact iff_of_true (h.thread_step fun _ ↦ requestNeeded_running s outcome) trivial
  | close => exact iff_of_true (h.thread_step fun _ ↦ ThreadPoint.noConfusion) trivial
  | stopped => exact stopped_stranded_iff h
  | stop => exact iff_of_true (h.of_frame id rfl fun _ _ _ ↦ id) trivial
  | testWorking caller kind => exact iff_of_true (testWorking_stranded h caller kind) trivial
  | request caller outcome =>
    cases outcome with
    | sent => exact request_sent_stranded_iff h caller
    | failed counted failure => exact iff_of_true (request_failed_stranded h caller counted failure) trivial
  | look caller => exact iff_of_true (look_stranded h caller) trivial

end

def runSteps (steps : List SessionStep) : SessionThreads := steps.foldl SessionThreads.step .opened

/-- In every run of any number of callers with the session thread: nobody is stranded in any state of
it if and only if each of its steps is admitted. -/
theorem nobody_stranded_iff (steps : List SessionStep) :
    (∀ done, done <+: steps → NobodyStranded (runSteps done)) ↔
      ∀ done action, done ++ [action] <+: steps → Admits (runSteps done) action := by
  have hopened : NobodyStranded .opened := nobodyStranded_of_running ThreadPoint.noConfusion
  apply Runs.throughout_iff fun _ ↦ True
  · exact fun _ _ _ ↦ trivial
  · exact fun _ action _ hgood ↦ step_stranded_iff hgood action
  · trivial
  · exact hopened

/-- A caller sends a request, then the server disconnects. -/
def disconnectedWhileWaiting : List SessionStep :=
  [.threadProc, .testWorking 0 .streamDef, .request 0 .sent, .testShouldStop,
    .processInput (.unreadable .disconnected), .close, .stopped]

theorem caller_stranded : ¬ NobodyStranded (runSteps disconnectedWhileWaiting) := by
  intro h
  have hid := h rfl 0 .streamDef 2 rfl
  exact absurd hid (by decide)

end DxApi.Session
