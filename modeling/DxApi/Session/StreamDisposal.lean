import DxApi.Net.Execution
import DxApi.Session.StreamLock
import DxApi.Xml.Escaping
import Mathlib.Order.Basic

/-!
# Disposing of the cached streams

When the cache is cleared each stream is unlocked until it is not locked any more, and then disposed of. The
last unlock sends a request, which succeeds or throws: the result `false` is left to requests with `noException`,
and this one leaves it unset. What is thrown ends the unlocking, so that it always ends.
-/

namespace DxApi.Session

open Exec Net

open Xml (unescape)

/-! ## The source -/

/-- A `TickStreamImpl`, with its lock. -/
structure StreamObject where
  key : String
  lock : LockedStream
  isDeleted : Bool

/-- An entry of the cache; its stream is not deleted and its lock is counted. -/
structure CachedEntry where
  key : String
  lock : LockedStream
  counted : LocksCounted lock

/-- The stream of the entry. -/
def CachedEntry.stream (entry : CachedEntry) : StreamObject := ⟨entry.key, entry.lock, false⟩

/-- What `executeTbPostRequest` gives: a code and a response, unless it throws. -/
abbrev Exchange := Except ExecuteError (ℕ × List UInt8)

inductive XmlRequestError
  | execute (error : ExecuteError)
  /-- `XmlErrorResponseException`. -/
  | errorResponse (errorCode : ℕ) (message : List UInt8)

/-- `XmlRequest::executeWithTextResponse`: the result, and the response. -/
def executeWithTextResponse (noException : Bool) : Exchange → Except XmlRequestError (Bool × List UInt8)
  | .error error => .error (.execute error)
  | .ok (httpResult, response) =>
    if HttpSuccess httpResult then .ok (true, response)
    else if noException then .ok (false, unescape response)
    else .error (.errorResponse httpResult (unescape response))

/-- `UnlockStreamRequest::execute`. Nobody sets `noException` in this request. -/
def UnlockStreamRequest.execute (exchange : Exchange) : Except XmlRequestError Bool :=
  (executeWithTextResponse false exchange).map Prod.fst

/-- How an unlock request ends. -/
def unlockOutcome (exchange : Exchange) : LockOutcome :=
  match UnlockStreamRequest.execute exchange with
  | .ok true => .accepted ""
  | .ok false => .refused
  | .error _ => .raised

/-- The loop of `unlockAndDisposeStream` with its exceptions caught, for what becomes of each request that the
stream sends, in so many calls of `unlock`; nothing when it does not end in these. -/
def unlockLoop (exchanges : ℕ → Exchange) : ℕ → LockedStream → Option LockedStream
  | 0, _ => none
  | fuel + 1, s =>
    match unlock (unlockOutcome (exchanges s.requests.length)) s with
    | .ok .noLock s' => some s'
    | .ok _ s' => unlockLoop exchanges fuel s'
    | .error _ s' => some s'

def disposeStream (stream : StreamObject) : StreamObject :=
  { stream with key := stream.key ++ "[DEAD]", isDeleted := true }

def unlockAndDisposeStream (exchanges : ℕ → Exchange) (fuel : ℕ) (entry : CachedEntry) : Option StreamObject :=
  (unlockLoop exchanges fuel entry.lock).map fun lock ↦ disposeStream { entry.stream with lock := lock }

/-- The loop of `clear`, for what becomes of the requests of each stream. -/
def disposeEach (exchanges : String → ℕ → Exchange) (fuel : ℕ) : List CachedEntry → Option (List StreamObject)
  | [] => some []
  | entry :: rest => do
    let stream ← unlockAndDisposeStream (exchanges entry.key) fuel entry
    let disposed ← disposeEach exchanges fuel rest
    return stream :: disposed

/-- `clear`: the streams that were disposed of, in order, and the entries that are left. -/
def clearCache (exchanges : String → ℕ → Exchange) (fuel : ℕ) (data : List CachedEntry) :
    Option (List StreamObject × List CachedEntry) := do
  let disposed ← disposeEach exchanges fuel data
  return (disposed, [])

/-! ## The purpose -/

/-- The unlocking ends, and the stream is disposed of. -/
def Disposes (exchanges : ℕ → Exchange) (entry : CachedEntry) : Prop :=
  ∃ fuel stream, unlockAndDisposeStream exchanges fuel entry = some stream ∧ stream.isDeleted = true

/-- `clear` ends, each stream is disposed of, and no entry is left. -/
def Clears (exchanges : String → ℕ → Exchange) (data : List CachedEntry) : Prop :=
  ∃ fuel disposed, clearCache exchanges fuel data = some (disposed, []) ∧ disposed.length = data.length ∧
    ∀ stream ∈ disposed, stream.isDeleted = true

/-! ## One call -/

/-- The stream once the request of the last unlock is sent. -/
def LockedStream.requested (s : LockedStream) : LockedStream :=
  { s with requests := s.requests ++ [.unlockStream s.dbLock.token (s.dbLock.type = .writeLock)] }

section

variable {s s' : LockedStream} {exchanges : ℕ → Exchange} {fuel : ℕ}

theorem unlock_of_noLock (h : s.dbLock.type = .noLock) (outcome : LockOutcome) :
    unlock outcome s = .ok .noLock s := by
  rw [unlock, run_get_bind, if_pos h, run_pure]

/-- A stream that is locked is unlocked by `releaseLock`. -/
theorem unlock_of_held (hheld : s.dbLock.type ≠ .noLock) (hcount : s.dbLock.count ≠ 0) (outcome : LockOutcome) :
    unlock outcome s = (do releaseLock outcome; return (← get).dbLock.type : LockM LockType) s := by
  rw [unlock, run_get_bind, if_neg hheld, if_neg hcount]

/-- An unlock that is not the last one only counts. -/
theorem unlock_of_more (hheld : s.dbLock.type ≠ .noLock) (hmore : 1 < s.dbLock.count) (outcome : LockOutcome) :
    unlock outcome s = .ok s.dbLock.type { s with dbLock := { s.dbLock with count := s.dbLock.count - 1 } } := by
  have hleft : s.dbLock.count - 1 ≠ 0 := by omega
  have hrelease : releaseLock outcome s =
      .ok () { s with dbLock := { s.dbLock with count := s.dbLock.count - 1 } } := by
    rw [releaseLock, run_get_bind]
    exact congrFun (if_neg hleft) s
  rw [unlock_of_held hheld (by omega), run_bind_of_ok hrelease, run_get_bind, run_pure]

/-- The last of the locks is given back by a request. -/
theorem releaseLock_last (hlast : s.dbLock.count = 1) (outcome : LockOutcome) :
    releaseLock outcome s = requestUnlock outcome s.dbLock.type s.dbLock.token s := by
  have hleft : s.dbLock.count - 1 = 0 := by omega
  rw [releaseLock, run_get_bind]
  exact congrFun (if_pos hleft) s

/-- The last unlock on a database that is not open. -/
theorem unlock_of_closed (hheld : s.dbLock.type ≠ .noLock) (hlast : s.dbLock.count = 1) (hclosed : s.isOpen = false)
    (outcome : LockOutcome) : unlock outcome s = .error .notOpen s := by
  have hcheck : checkOpen s = .error .notOpen s := by
    rw [checkOpen, run_get_bind, if_pos hclosed, run_throw]
  have hrelease : releaseLock outcome s = .error .notOpen s := by
    rw [releaseLock_last hlast, requestUnlock, streamUnlockStream, bind_assoc, run_bind_of_error hcheck]
  rw [unlock_of_held hheld (by omega), run_bind_of_error hrelease]

/-- The last unlock sends a request. -/
theorem unlock_last (hheld : s.dbLock.type ≠ .noLock) (hlast : s.dbLock.count = 1) (hopen : s.isOpen = true)
    (outcome : LockOutcome) :
    unlock outcome s =
      match outcome with
      | .accepted _ => .ok .noLock { s.requested with serverHolds := false, dbLock := .empty }
      | .refused => .ok s.dbLock.type s.requested
      | .raised => .error .request s.requested := by
  have hnotClosed : ¬ s.isOpen = false := by rw [hopen]; exact Bool.noConfusion
  have hcheck : checkOpen s = .ok () s := by
    rw [checkOpen, run_get_bind, if_neg hnotClosed, run_pure]
  have hsend : send (.unlockStream s.dbLock.token (s.dbLock.type = .writeLock)) s = .ok () s.requested := rfl
  have hrelease : releaseLock outcome s =
      match outcome with
      | .accepted _ => .ok () { s.requested with serverHolds := false, dbLock := .empty }
      | .refused => .ok () s.requested
      | .raised => .error .request s.requested := by
    rw [releaseLock_last hlast, requestUnlock, streamUnlockStream, bind_assoc, run_bind_of_ok hcheck, bind_assoc,
      run_bind_of_ok hsend]
    cases outcome <;> rfl
  rw [unlock_of_held hheld (by omega)]
  cases outcome with
  | accepted id => rw [run_bind_of_ok hrelease, run_get_bind, run_pure]; rfl
  | refused => rw [run_bind_of_ok hrelease, run_get_bind, run_pure]; rfl
  | raised => rw [run_bind_of_error hrelease]

/-! ## The loop -/

/-- The request succeeds or throws. -/
theorem unlockOutcome_ne_refused (exchange : Exchange) : unlockOutcome exchange ≠ .refused := by
  rw [unlockOutcome, UnlockStreamRequest.execute]
  cases exchange with
  | error error => exact fun h ↦ nomatch h
  | ok result =>
    rw [executeWithTextResponse]
    by_cases hsuccess : HttpSuccess result.1
    · rw [if_pos hsuccess]
      exact fun h ↦ nomatch h
    · rw [if_neg hsuccess, if_neg Bool.false_ne_true]
      exact fun h ↦ nomatch h

theorem unlockLoop_of_ok {lockType : LockType} (hrun : unlock (unlockOutcome (exchanges s.requests.length)) s = .ok lockType s')
    (hheld : lockType ≠ .noLock) : unlockLoop exchanges (fuel + 1) s = unlockLoop exchanges fuel s' := by
  rw [unlockLoop, hrun]
  cases lockType with
  | noLock => exact absurd rfl hheld
  | readLock => rfl
  | writeLock => rfl

/-- A call that returns keeps the count right. -/
theorem LocksCounted.unlock_ok (h : LocksCounted s) {outcome : LockOutcome} {lockType : LockType}
    (hrun : unlock outcome s = .ok lockType s') : LocksCounted s' := by
  have hspec := unlock_spec h outcome
  rw [wp_ok hrun] at hspec
  exact hspec.1

/-- Each call lowers the count, or it is the last one, and then the request succeeds or throws. -/
theorem unlockLoop_isSome (h : LocksCounted s) {steps : ℕ} (hsteps : s.dbLock.count ≤ steps) :
    (unlockLoop exchanges (steps + 1) s).isSome := by
  induction steps generalizing s with
  | zero =>
    have hfree : s.dbLock.type = .noLock := h.type_iff.mpr (Nat.eq_zero_of_le_zero hsteps)
    rw [unlockLoop, unlock_of_noLock hfree]
    rfl
  | succ steps ih =>
    by_cases hfree : s.dbLock.type = .noLock
    · rw [unlockLoop, unlock_of_noLock hfree]
      rfl
    have hcount : s.dbLock.count ≠ 0 := fun hzero ↦ hfree (h.type_iff.mpr hzero)
    by_cases hmore : 1 < s.dbLock.count
    · have hrun := unlock_of_more hfree hmore (unlockOutcome (exchanges s.requests.length))
      rw [unlockLoop_of_ok hrun hfree]
      exact ih (h.unlock_ok hrun) (Nat.sub_le_of_le_add hsteps)
    have hlast : s.dbLock.count = 1 := by omega
    cases hopen : s.isOpen with
    | false =>
      rw [unlockLoop, unlock_of_closed hfree hlast hopen]
      rfl
    | true =>
      have hrun := unlock_last hfree hlast hopen (unlockOutcome (exchanges s.requests.length))
      cases houtcome : unlockOutcome (exchanges s.requests.length) with
      | accepted id =>
        rw [unlockLoop, hrun, houtcome]
        rfl
      | raised =>
        rw [unlockLoop, hrun, houtcome]
        rfl
      | refused => exact absurd houtcome (unlockOutcome_ne_refused _)

/-- More calls than the loop makes change nothing. -/
theorem unlockLoop_mono (hrun : unlockLoop exchanges fuel s = some s') (more : ℕ) :
    unlockLoop exchanges (fuel + more) s = some s' := by
  induction fuel generalizing s with
  | zero => cases hrun
  | succ fuel ih =>
    rw [Nat.succ_add, unlockLoop]
    rw [unlockLoop] at hrun
    split at hrun
    · exact hrun
    · exact ih hrun
    · exact hrun

end

/-! ## The cache -/

section

variable {exchanges : ℕ → Exchange} {fuel : ℕ} {entry : CachedEntry} {stream : StreamObject}

/-- Whenever it ends, the stream is disposed of. -/
theorem isDeleted_of_unlockAndDisposeStream (h : unlockAndDisposeStream exchanges fuel entry = some stream) :
    stream.isDeleted = true := by
  obtain ⟨lock, -, rfl⟩ := Option.map_eq_some_iff.mp h
  rfl

theorem disposes (exchanges : ℕ → Exchange) (entry : CachedEntry) : Disposes exchanges entry := by
  have hsome : (unlockLoop exchanges (entry.lock.dbLock.count + 1) entry.lock).isSome :=
    unlockLoop_isSome entry.counted le_rfl
  obtain ⟨lock, hloop⟩ := Option.isSome_iff_exists.mp hsome
  exact ⟨_, _, Option.map_eq_some_iff.mpr ⟨lock, hloop, rfl⟩, rfl⟩

theorem unlockAndDisposeStream_mono (h : unlockAndDisposeStream exchanges fuel entry = some stream) (more : ℕ) :
    unlockAndDisposeStream exchanges (fuel + more) entry = some stream := by
  obtain ⟨lock, hloop, hstream⟩ := Option.map_eq_some_iff.mp h
  exact Option.map_eq_some_iff.mpr ⟨lock, unlockLoop_mono hloop more, hstream⟩

end

section

variable {exchanges : String → ℕ → Exchange} {fuel : ℕ} {entry : CachedEntry} {rest data : List CachedEntry}
  {disposed : List StreamObject}

theorem disposeEach_cons_eq_some :
    disposeEach exchanges fuel (entry :: rest) = some disposed ↔
      ∃ stream later, unlockAndDisposeStream (exchanges entry.key) fuel entry = some stream ∧
        disposeEach exchanges fuel rest = some later ∧ stream :: later = disposed := by
  simp [disposeEach, Option.bind_eq_some_iff]

theorem disposeEach_mono (h : disposeEach exchanges fuel data = some disposed) (more : ℕ) :
    disposeEach exchanges (fuel + more) data = some disposed := by
  induction data generalizing disposed with
  | nil => exact h
  | cons entry rest ih =>
    obtain ⟨stream, later, hstream, hrest, hdisposed⟩ := disposeEach_cons_eq_some.mp h
    exact disposeEach_cons_eq_some.mpr ⟨stream, later, unlockAndDisposeStream_mono hstream more, ih hrest, hdisposed⟩

/-- Each entry has its stream disposed of. -/
theorem disposeEach_spec (h : disposeEach exchanges fuel data = some disposed) :
    disposed.length = data.length ∧ ∀ stream ∈ disposed, stream.isDeleted = true := by
  induction data generalizing disposed with
  | nil =>
    cases h
    exact ⟨rfl, List.forall_mem_nil _⟩
  | cons entry rest ih =>
    obtain ⟨stream, later, hstream, hrest, rfl⟩ := disposeEach_cons_eq_some.mp h
    obtain ⟨hlength, hdeleted⟩ := ih hrest
    constructor
    · exact congrArg Nat.succ hlength
    · exact List.forall_mem_cons.mpr ⟨isDeleted_of_unlockAndDisposeStream hstream, hdeleted⟩

/-- The loop of `clear` ends because it does for each stream. -/
theorem disposeEach_ends (exchanges : String → ℕ → Exchange) (data : List CachedEntry) :
    ∃ fuel disposed, disposeEach exchanges fuel data = some disposed := by
  induction data with
  | nil => exact ⟨0, [], rfl⟩
  | cons entry rest ih =>
    obtain ⟨fuel, stream, hstream, -⟩ := disposes (exchanges entry.key) entry
    obtain ⟨fuel', later, hlater⟩ := ih
    have hlater' := disposeEach_mono hlater fuel
    rw [Nat.add_comm] at hlater'
    exact ⟨fuel + fuel', stream :: later, disposeEach_cons_eq_some.mpr
      ⟨stream, later, unlockAndDisposeStream_mono hstream fuel', hlater', rfl⟩⟩

end

/-- Whatever becomes of the unlock requests, each stream is disposed of and the cache is cleared. -/
theorem disposal_ends (exchanges : String → ℕ → Exchange) (entry : CachedEntry) (data : List CachedEntry) :
    Disposes (exchanges entry.key) entry ∧ Clears exchanges data := by
  constructor
  · exact disposes _ entry
  · obtain ⟨fuel, disposed, heach⟩ := disposeEach_ends exchanges data
    obtain ⟨hlength, hdeleted⟩ := disposeEach_spec heach
    exact ⟨fuel, disposed, Option.bind_eq_some_iff.mpr ⟨disposed, heach, rfl⟩, hlength, hdeleted⟩

end DxApi.Session
