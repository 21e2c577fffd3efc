import DxApi.Lib.Exec
import Mathlib.Data.Int.Notation
import Mathlib.Data.Nat.Notation

/-!
# The lock of a stream

`lock` and `unlock` count how often a client holds a stream and ask the server for the first lock
and the last unlock only. Each of them runs as a whole under the lock of the stream object, so calls
of several threads follow one another.
-/

namespace DxApi.Session

open Exec

inductive LockType
  | noLock
  | readLock
  | writeLock
  deriving DecidableEq, Repr

structure DbLock where
  type : LockType
  count : ℕ
  token : String

def DbLock.empty : DbLock := ⟨.noLock, 0, ""⟩

/-- A `lockStream` or an `unlockStream` request with what it says. -/
inductive LockUnlockRequest
  | lockStream (sid : String) (write : Bool) (timeout : ℤ)
  | unlockStream (id : String) (write : Bool)
  deriving DecidableEq, Repr

/-- How a request ends: it is accepted and the response names a lock, it is refused, or it throws. -/
inductive LockOutcome
  | accepted (id : String)
  | refused
  | raised

/-- Why a call does not return. -/
inductive LockError
  /-- `lock` was called for `NO_LOCK`. -/
  | noLockRequested
  | differentType (requested held : LockType)
  | notOpen
  | request
  /-- `unlock` found a lock with a count of 0. -/
  | assertion
  deriving DecidableEq, Repr

/-- The lock members of `TickStreamImpl`, the database of the stream, and the server. -/
structure LockedStream where
  dbLock : DbLock
  isOpen : Bool
  sessionId : String
  /-- The requests that were sent, in order. -/
  requests : List LockUnlockRequest
  /-- The server holds the lock for this client. -/
  serverHolds : Bool

/-- A stream that was just created, on a database that may be open. -/
def LockedStream.fresh (isOpen : Bool) (sessionId : String) : LockedStream :=
  ⟨.empty, isOpen, sessionId, [], false⟩

abbrev LockM (α : Type) := EStateM LockError LockedStream α

/-- `CHECK_OPEN`. -/
def checkOpen : LockM Unit := do
  let s ← get
  if s.isOpen = false then
    throw .notOpen

def send (request : LockUnlockRequest) : LockM Unit :=
  modify fun s ↦ { s with requests := s.requests ++ [request] }

/-- The response to a request; only an accepted one changes what the server holds. -/
def respond (outcome : LockOutcome) (accept : String → LockedStream → LockedStream) : LockM Bool :=
  match outcome with
  | .accepted id => do
    modify (accept id)
    return true
  | .refused => return false
  | .raised => throw .request

/-- `stream_lockStream`, for an outcome of the request. -/
def streamLockStream (outcome : LockOutcome) (write : Bool) (timeoutMs : ℤ) : LockM Bool := do
  checkOpen
  let s ← get
  send (.lockStream s.sessionId write timeoutMs)
  respond outcome fun id s ↦ { s with serverHolds := true, dbLock := { s.dbLock with token := id } }

/-- `stream_unlockStream`; the response says nothing. -/
def streamUnlockStream (outcome : LockOutcome) (write : Bool) (token : String) : LockM Bool := do
  checkOpen
  send (.unlockStream token write)
  respond outcome fun _ s ↦ { s with serverHolds := false }

/-- The branch of `lock` for a stream that is locked. -/
def retainLock (lockType : LockType) : LockM Unit := do
  let s ← get
  if s.dbLock.type ≠ lockType then
    throw (.differentType lockType s.dbLock.type)
  else
    modify fun s ↦ { s with dbLock := { s.dbLock with count := s.dbLock.count + 1 } }

/-- The branch of `lock` for a stream that is not locked. -/
def requestLock (outcome : LockOutcome) (lockType : LockType) (timeoutMs : ℤ) : LockM Unit := do
  let locked ← streamLockStream outcome (lockType = .writeLock) timeoutMs
  if locked then
    modify fun s ↦ { s with dbLock := { s.dbLock with count := 1, type := lockType } }

def takeLock (outcome : LockOutcome) (lockType : LockType) (timeoutMs : ℤ) : LockM Unit := do
  let s ← get
  if s.dbLock.type ≠ .noLock then
    retainLock lockType
  else
    requestLock outcome lockType timeoutMs

def lock (outcome : LockOutcome) (lockType : LockType) (timeoutMs : ℤ) : LockM LockType := do
  if lockType = .noLock then
    throw .noLockRequested
  else
    takeLock outcome lockType timeoutMs
    return (← get).dbLock.type

/-- The branch of `unlock` for the last lock. -/
def requestUnlock (outcome : LockOutcome) (lockType : LockType) (token : String) : LockM Unit := do
  let unlocked ← streamUnlockStream outcome (lockType = .writeLock) token
  if unlocked then
    modify fun s ↦ { s with dbLock := ⟨.noLock, 0, ""⟩ }

def releaseLock (outcome : LockOutcome) : LockM Unit := do
  let s ← get
  let count := s.dbLock.count - 1
  if count = 0 then
    requestUnlock outcome s.dbLock.type s.dbLock.token
  else
    modify fun s ↦ { s with dbLock := { s.dbLock with count := count } }

def unlock (outcome : LockOutcome) : LockM LockType := do
  let s ← get
  if s.dbLock.type = .noLock then
    return .noLock
  else if s.dbLock.count = 0 then
    throw .assertion
  else
    releaseLock outcome
    return (← get).dbLock.type

/-- A call on the stream, with the outcome of the request that it may send; or the database is
opened or closed. -/
inductive LockCall
  | lock (lockType : LockType) (timeoutMs : ℤ) (outcome : LockOutcome)
  | unlock (outcome : LockOutcome)
  | setOpen (isOpen : Bool)

def LockCall.exec : LockCall → LockM Unit
  | .lock lockType timeoutMs outcome => do
    let _ ← Session.lock outcome lockType timeoutMs
  | .unlock outcome => do
    let _ ← Session.unlock outcome
  | .setOpen isOpen => modify fun s ↦ { s with isOpen := isOpen }

/-- Calls one after the other; what they throw is caught. -/
def runLockCalls (calls : List LockCall) (s : LockedStream) : LockedStream :=
  calls.foldl (fun s call ↦ finalState call.exec s) s

/-- Count, type and server agree. -/
structure LocksCounted (s : LockedStream) : Prop where
  type_iff : s.dbLock.type = .noLock ↔ s.dbLock.count = 0
  server_iff : s.serverHolds = true ↔ 0 < s.dbLock.count

/-- The count at which a request may be sent. -/
def LockUnlockRequest.sentAt : LockUnlockRequest → ℕ
  | .lockStream _ _ _ => 0
  | .unlockStream _ _ => 1

/-- What was sent between two states was sent at its count. -/
def SentAtCount (s s' : LockedStream) : Prop :=
  ∃ sent, s'.requests = s.requests ++ sent ∧ ∀ request ∈ sent, s.dbLock.count = request.sentAt

/-- What a call does, whichever way it ends. -/
def CallCounted (s s' : LockedStream) : Prop := LocksCounted s' ∧ SentAtCount s s'

section

variable {s s' : LockedStream}

theorem SentAtCount.none (h : s'.requests = s.requests) : SentAtCount s s' :=
  ⟨[], by rw [h, List.append_nil], fun _ hmem ↦ absurd hmem List.not_mem_nil⟩

theorem SentAtCount.one {request : LockUnlockRequest} (h : s'.requests = s.requests ++ [request])
    (hcount : s.dbLock.count = request.sentAt) : SentAtCount s s' := by
  refine ⟨[request], h, ?_⟩
  intro sent hmem
  rwa [List.mem_singleton.mp hmem]

/-- A call that changes nothing. -/
theorem LocksCounted.unchanged (h : LocksCounted s) : CallCounted s s := ⟨h, .none rfl⟩

/-- Only an accepted request takes the lock. -/
theorem streamLockStream_spec (outcome : LockOutcome) (write : Bool) (timeoutMs : ℤ) :
    wp (streamLockStream outcome write timeoutMs)
      (fun locked s' ↦ s'.dbLock.count = s.dbLock.count ∧ s'.dbLock.type = s.dbLock.type ∧
        s'.requests = s.requests ++ [.lockStream s.sessionId write timeoutMs] ∧
        s'.serverHolds = (locked || s.serverHolds))
      (fun _ s' ↦ s'.dbLock = s.dbLock ∧ s'.serverHolds = s.serverHolds ∧
        (s'.requests = s.requests ∨ s'.requests = s.requests ++ [.lockStream s.sessionId write timeoutMs])) s := by
  rw [streamLockStream, checkOpen, wp_bind, wp_bind, wp_get, wp_ite]
  constructor
  · intro _
    exact ⟨rfl, rfl, .inl rfl⟩
  · intro _
    rw [wp_pure, wp_bind, wp_get, wp_bind, send, wp_modify]
    cases outcome with
    | accepted id => exact ⟨rfl, rfl, rfl, rfl⟩
    | refused => exact ⟨rfl, rfl, rfl, rfl⟩
    | raised => exact ⟨rfl, rfl, .inr rfl⟩

/-- Only an accepted request gives the lock back. -/
theorem streamUnlockStream_spec (outcome : LockOutcome) (write : Bool) (token : String) :
    wp (streamUnlockStream outcome write token)
      (fun unlocked s' ↦ s'.dbLock = s.dbLock ∧ s'.requests = s.requests ++ [.unlockStream token write] ∧
        s'.serverHolds = (!unlocked && s.serverHolds))
      (fun _ s' ↦ s'.dbLock = s.dbLock ∧ s'.serverHolds = s.serverHolds ∧
        (s'.requests = s.requests ∨ s'.requests = s.requests ++ [.unlockStream token write])) s := by
  rw [streamUnlockStream, checkOpen, wp_bind, wp_bind, wp_get, wp_ite]
  constructor
  · intro _
    exact ⟨rfl, rfl, .inl rfl⟩
  · intro _
    rw [wp_pure, wp_bind, send, wp_modify]
    cases outcome with
    | accepted id => exact ⟨rfl, rfl, rfl⟩
    | refused => exact ⟨rfl, rfl, rfl⟩
    | raised => exact ⟨rfl, rfl, .inr rfl⟩

/-- A request that threw, sent at its count or not at all. -/
theorem LocksCounted.raised (h : LocksCounted s) (request : LockUnlockRequest)
    (hcount : s.dbLock.count = request.sentAt) (hlock : s'.dbLock = s.dbLock)
    (hserver : s'.serverHolds = s.serverHolds)
    (hsent : s'.requests = s.requests ∨ s'.requests = s.requests ++ [request]) : CallCounted s s' := by
  constructor
  · constructor
    · rw [hlock]
      exact h.type_iff
    · rw [hlock, hserver]
      exact h.server_iff
  · rcases hsent with hnone | hone
    · exact .none hnone
    · exact .one hone hcount

theorem retainLock_spec (h : LocksCounted s) (lockType : LockType) (hheld : s.dbLock.type ≠ .noLock) :
    wp (retainLock lockType) (fun _ ↦ CallCounted s) (fun _ ↦ CallCounted s) s := by
  have hpos : 0 < s.dbLock.count := Nat.pos_of_ne_zero fun hzero ↦ hheld (h.type_iff.mpr hzero)
  rw [retainLock, wp_bind, wp_get, wp_ite]
  constructor
  · intro _
    exact h.unchanged
  · intro _
    rw [wp_modify]
    constructor
    · constructor
      · exact iff_of_false hheld (Nat.succ_ne_zero _)
      · exact iff_of_true (h.server_iff.mpr hpos) (Nat.succ_pos _)
    · exact .none rfl

theorem requestLock_spec (h : LocksCounted s) (outcome : LockOutcome) {lockType : LockType}
    (hlockType : lockType ≠ .noLock) (timeoutMs : ℤ) (hfree : s.dbLock.type = .noLock) :
    wp (requestLock outcome lockType timeoutMs) (fun _ ↦ CallCounted s) (fun _ ↦ CallCounted s) s := by
  have hzero : s.dbLock.count = 0 := h.type_iff.mp hfree
  apply wp_call (streamLockStream_spec outcome _ timeoutMs)
  · intro locked s' ⟨hcount, htype, hsent, hserver⟩
    rw [wp_ite]
    constructor
    · intro hlocked
      rw [wp_modify]
      constructor
      · constructor
        · exact iff_of_false hlockType Nat.one_ne_zero
        · exact iff_of_true (by rw [hserver, hlocked, Bool.true_or]) Nat.one_pos
      · exact .one hsent hzero
    · intro hrefused
      rw [wp_pure]
      constructor
      · constructor
        · rw [hcount, htype]
          exact h.type_iff
        · rw [hserver, Bool.eq_false_iff.mpr hrefused, Bool.false_or, hcount]
          exact h.server_iff
      · exact .one hsent hzero
  · intro _ s' ⟨hlock, hserver, hsent⟩
    exact h.raised (.lockStream _ _ _) hzero hlock hserver hsent

/-- The value returned is read behind the call. -/
theorem wp_then_type {program : LockM Unit}
    (h : wp program (fun _ ↦ CallCounted s) (fun _ ↦ CallCounted s) s) :
    wp (do program; return (← get).dbLock.type) (fun _ ↦ CallCounted s) (fun _ ↦ CallCounted s) s := by
  apply wp_call h
  · exact fun _ _ hcounted ↦ hcounted
  · exact fun _ _ hcounted ↦ hcounted

theorem lock_spec (h : LocksCounted s) (outcome : LockOutcome) (lockType : LockType) (timeoutMs : ℤ) :
    wp (lock outcome lockType timeoutMs) (fun _ ↦ CallCounted s) (fun _ ↦ CallCounted s) s := by
  rw [lock, wp_ite]
  constructor
  · intro _
    exact h.unchanged
  · intro hlockType
    apply wp_then_type
    rw [takeLock, wp_bind, wp_get, wp_ite]
    constructor
    · exact fun hheld ↦ retainLock_spec h lockType hheld
    · exact fun hfree ↦ requestLock_spec h outcome hlockType timeoutMs (Decidable.not_not.mp hfree)

theorem requestUnlock_spec (h : LocksCounted s) (outcome : LockOutcome) (lockType : LockType)
    (token : String) (hone : s.dbLock.count = 1) :
    wp (requestUnlock outcome lockType token) (fun _ ↦ CallCounted s) (fun _ ↦ CallCounted s) s := by
  apply wp_call (streamUnlockStream_spec outcome _ token)
  · intro unlocked s' ⟨hlock, hsent, hserver⟩
    rw [wp_ite]
    constructor
    · intro hunlocked
      rw [wp_modify]
      constructor
      · constructor
        · exact iff_of_true rfl rfl
        · exact iff_of_false (by simp [hserver, hunlocked]) (Nat.lt_irrefl 0)
      · exact .one hsent hone
    · intro hrefused
      rw [wp_pure]
      constructor
      · constructor
        · rw [hlock]
          exact h.type_iff
        · rw [hserver, Bool.eq_false_iff.mpr hrefused, hlock]
          exact h.server_iff
      · exact .one hsent hone
  · intro _ s' ⟨hlock, hserver, hsent⟩
    exact h.raised (.unlockStream _ _) hone hlock hserver hsent

theorem unlock_spec (h : LocksCounted s) (outcome : LockOutcome) :
    wp (unlock outcome) (fun _ ↦ CallCounted s) (fun _ ↦ CallCounted s) s := by
  rw [unlock, wp_bind, wp_get, wp_ite]
  constructor
  · intro _
    exact h.unchanged
  intro hheld
  -- the assertion holds: a lock that is held was counted
  have hcount : s.dbLock.count ≠ 0 := fun hzero ↦ hheld (h.type_iff.mpr hzero)
  rw [wp_ite]
  constructor
  · exact fun hzero ↦ absurd hzero hcount
  intro _
  apply wp_then_type
  rw [releaseLock, wp_bind, wp_get, wp_ite]
  constructor
  · intro hlast
    have hone : s.dbLock.count = 1 := by omega
    exact requestUnlock_spec h outcome _ _ hone
  · intro hmore
    rw [wp_modify]
    constructor
    · constructor
      · exact iff_of_false hheld hmore
      · exact iff_of_true (h.server_iff.mpr (Nat.pos_of_ne_zero hcount)) (Nat.pos_of_ne_zero hmore)
    · exact .none rfl

theorem LockCall.exec_spec (h : LocksCounted s) (call : LockCall) :
    CallCounted s (finalState call.exec s) := by
  apply finalState_of_wp
  cases call with
  | lock lockType timeoutMs outcome =>
    apply wp_call (lock_spec h outcome lockType timeoutMs)
    · exact fun _ _ hcounted ↦ hcounted
    · exact fun _ _ hcounted ↦ hcounted
  | unlock outcome =>
    apply wp_call (unlock_spec h outcome)
    · exact fun _ _ hcounted ↦ hcounted
    · exact fun _ _ hcounted ↦ hcounted
  | setOpen isOpen => exact ⟨⟨h.type_iff, h.server_iff⟩, .none rfl⟩

theorem LocksCounted.run (h : LocksCounted s) (calls : List LockCall) : LocksCounted (runLockCalls calls s) := by
  induction calls generalizing s with
  | nil => exact h
  | cons call calls ih => exact ih (call.exec_spec h).1

/-- After any calls, and whatever the next call is and its outcome. -/
theorem locks_counted (isOpen : Bool) (sessionId : String) (calls : List LockCall) (call : LockCall) :
    LocksCounted (runLockCalls calls (.fresh isOpen sessionId)) ∧
      CallCounted (runLockCalls calls (.fresh isOpen sessionId))
        (runLockCalls (calls ++ [call]) (.fresh isOpen sessionId)) := by
  have hfresh : LocksCounted (.fresh isOpen sessionId) := by
    constructor
    · exact iff_of_true rfl rfl
    · exact iff_of_false Bool.false_ne_true (Nat.lt_irrefl 0)
  have hrun := hfresh.run calls
  constructor
  · exact hrun
  · have hnext : runLockCalls (calls ++ [call]) (.fresh isOpen sessionId) =
        finalState call.exec (runLockCalls calls (.fresh isOpen sessionId)) := List.foldl_append
    rw [hnext]
    exact call.exec_spec hrun

end

end DxApi.Session
