import DxApi.Lib.ByteMemory
import Mathlib.Tactic.Ring

/-!
# Reading from a socket

`IOStreamTCP::read` calls the operating system's `recv` until it has at least as many bytes as are asked
for. What `recv` returns, call by call, is a parameter; while there is no next result, the read waits. An
error is reported by the result -1, and one error code is not thrown: the result is then added to the
count as an unsigned number.
-/

namespace DxApi.Net

open ByteMemory

/-- What a call of the operating system's `recv` does: it has bytes to deliver, the peer has closed the
connection, or it fails. -/
inductive RecvResult
  | received (count : ℕ)
  | closed
  | failed (errorCode : ℤ)

/-- `ESHUTDOWN`. -/
def eshutdown : ℤ := 108

/-- Why `read` throws an `IOStreamException`. -/
inductive ReadException
  | notConnected
  | disconnected
  | recvFailed (errorCode : ℤ)
  deriving DecidableEq, Repr

/-- The data members of `IOStreamTCP` that reading uses, with the bytes of the stream by their position,
how many of them `recv` has delivered, and the memory it writes to. -/
structure TCPInput where
  stream : Memory
  received : ℕ
  mem : Memory
  inputClosed : Bool
  nBytesRead : ℕ
  /-- How often `invokeDisconnectionCallback` was called. -/
  disconnections : ℕ

inductive ReadOutcome
  | waiting
  | threw (exception : ReadException)
  | returned (bytesRead : ℕ)

/-- The size that `recv` is asked for, an `int`. -/
def readSize (maxSize bytesRead : ℕ) : ℤ := Int.bmod (maxSize - bytesRead) (2 ^ 32)

/-- How many bytes `recv` delivers: at least one, and no more than it is asked for. It takes the size as a
`size_t`, and its result is an `int`. -/
def deliveredSize (maxSize bytesRead count : ℕ) : ℕ :=
  min (max 1 count) (min (readSize maxSize bytesRead % 2 ^ 64).toNat (2 ^ 31 - 1))

/-- `(unsigned)result`. -/
def asUnsigned (result : ℤ) : ℕ := (result % 2 ^ 32).toNat

namespace TCPInput

/-- The result of `recv`, and what it does. -/
def recv (s : TCPInput) (dest : ℤ) (maxSize bytesRead : ℕ) : RecvResult → ℤ × TCPInput
  | .received count =>
    let size := deliveredSize maxSize bytesRead count
    (size, { s with
      mem := store s.mem dest (bytes s.stream s.received size)
      received := s.received + size })
  | .closed => (0, s)
  | .failed _ => (-1, s)

/-- `socket_errno` behind a call. -/
def socketErrno : RecvResult → ℤ
  | .failed errorCode => errorCode
  | _ => 0

def readReturns (s : TCPInput) (bytesRead : ℕ) : ReadOutcome × TCPInput :=
  (.returned bytesRead, { s with nBytesRead := (s.nBytesRead + bytesRead) % 2 ^ 64 })

/-- The loop of `read`. -/
def readLoop (minSize maxSize : ℕ) : List RecvResult → ℕ → ℤ → TCPInput → ReadOutcome × TCPInput
  | [], bytesRead, _, s => if bytesRead < minSize then (.waiting, s) else s.readReturns bytesRead
  | result :: rest, bytesRead, dest, s =>
    if bytesRead < minSize then
      let value := (s.recv dest maxSize bytesRead result).1
      let s' := (s.recv dest maxSize bytesRead result).2
      if value < 0 ∧ socketErrno result ≠ eshutdown then
        (.threw (.recvFailed (socketErrno result)), { s' with disconnections := s'.disconnections + 1 })
      else if value = 0 then
        (.threw .disconnected, s')
      else
        readLoop minSize maxSize rest ((bytesRead + asUnsigned value) % 2 ^ 64) (dest + asUnsigned value) s'
    else s.readReturns bytesRead

/-- `IOStreamTCP::read`. -/
def read (s : TCPInput) (dest : ℤ) (minSize maxSize : ℕ) (results : List RecvResult) : ReadOutcome × TCPInput :=
  if s.inputClosed then (.threw .notConnected, s)
  else readLoop minSize maxSize results 0 dest s

/-- What a `read` that has returned `n` promises: the next `n` bytes of the stream are at the
destination, nothing else is written, and the bytes are counted. -/
structure Delivered (dest : ℤ) (minSize maxSize n : ℕ) (s s' : TCPInput) : Prop where
  minSize_le : minSize ≤ n
  le_maxSize : n ≤ maxSize
  received : s'.received = s.received + n
  content : bytes s'.mem dest n = bytes s.stream s.received n
  frame : ∀ address, address < dest ∨ dest + n ≤ address → s'.mem address = s.mem address
  nBytesRead : s'.nBytesRead = (s.nBytesRead + n) % 2 ^ 64

/-- A `read` throws, or delivers a run of the stream; it does not wait for more than `minSize` results. -/
def DeliversRun (s : TCPInput) (dest : ℤ) (minSize maxSize : ℕ) (results : List RecvResult) : Prop :=
  match s.read dest minSize maxSize results with
  | (.waiting, _) => results.length < minSize
  | (.threw _, _) => True
  | (.returned n, s') => Delivered dest minSize maxSize n s s'

/-- The first result that delivers no bytes fails with `ESHUTDOWN`, and bytes are missing then. -/
def ShutsDown (minSize maxSize : ℕ) : List RecvResult → ℕ → Prop
  | .received count :: rest, bytesRead =>
    bytesRead < minSize ∧ 0 < deliveredSize maxSize bytesRead count ∧
      ShutsDown minSize maxSize rest (bytesRead + deliveredSize maxSize bytesRead count)
  | .failed errorCode :: _, bytesRead => bytesRead < minSize ∧ errorCode = eshutdown
  | _, _ => False

variable {minSize maxSize bytesRead count : ℕ} {dest target : ℤ} {s t : TCPInput}

theorem deliveredSize_le (h : bytesRead ≤ maxSize) (hmax : maxSize < 2 ^ 64) (count : ℕ) :
    bytesRead + deliveredSize maxSize bytesRead count ≤ maxSize := by
  rw [deliveredSize]
  by_cases hsmall : maxSize - bytesRead < 2 ^ 31
  · have hsize : readSize maxSize bytesRead = (maxSize : ℤ) - bytesRead := by
      rw [readSize]
      apply Int.bmod_eq_of_le
      · omega
      · omega
    rw [hsize]
    omega
  · omega

theorem deliveredSize_lt (maxSize bytesRead count : ℕ) : deliveredSize maxSize bytesRead count < 2 ^ 31 := by
  rw [deliveredSize]
  omega

theorem asUnsigned_natCast (h : count < 2 ^ 32) : asUnsigned count = count := by
  rw [asUnsigned]
  omega

/-- The first `bytesRead` bytes have come. -/
structure Loaded (target : ℤ) (t : TCPInput) (bytesRead : ℕ) (dest : ℤ) (s : TCPInput) : Prop where
  dest_eq : dest = target + bytesRead
  received : s.received = t.received + bytesRead
  stream : s.stream = t.stream
  content : bytes s.mem target bytesRead = bytes t.stream t.received bytesRead
  frame : ∀ address, address < target ∨ target + bytesRead ≤ address → s.mem address = t.mem address
  nBytesRead : s.nBytesRead = t.nBytesRead

theorem loaded_start (s : TCPInput) (dest : ℤ) : Loaded dest s 0 dest s where
  dest_eq := (add_zero dest).symm
  received := rfl
  stream := rfl
  content := rfl
  frame _ _ := rfl
  nBytesRead := rfl

/-- Bytes that `recv` delivers continue the run. -/
theorem Loaded.recv (h : Loaded target t bytesRead dest s) (maxSize count : ℕ) :
    Loaded target t (bytesRead + deliveredSize maxSize bytesRead count)
      (dest + deliveredSize maxSize bytesRead count) (s.recv dest maxSize bytesRead (.received count)).2 := by
  rw [TCPInput.recv]
  generalize deliveredSize maxSize bytesRead count = size
  have hlength : (bytes s.stream s.received size).length = size := length_bytes _ _ _
  constructor
  · rw [h.dest_eq]
    push_cast
    ring
  · simp only [h.received]
    ring
  · exact h.stream
  · have hbefore : bytes (store s.mem dest (bytes s.stream s.received size)) target bytesRead =
        bytes s.mem target bytesRead := by
      apply bytes_congr
      intro address _ hlt
      apply store_of_lt
      rw [h.dest_eq]
      exact hlt
    have hnew : bytes (store s.mem dest (bytes s.stream s.received size))
        (target + bytesRead) size = bytes s.stream s.received size := by
      have hstored := bytes_store s.mem dest (bytes s.stream s.received size)
      rw [hlength] at hstored
      rw [← h.dest_eq, hstored]
    rw [bytes_add, hbefore, hnew, h.content, bytes_add, h.stream, h.received]
    push_cast
    rfl
  · intro address houtside
    have hkept : store s.mem dest (bytes s.stream s.received size) address = s.mem address := by
      rcases houtside with hlt | hge
      · apply store_of_lt
        rw [h.dest_eq]
        omega
      · apply store_of_ge
        rw [h.dest_eq, hlength]
        push_cast at hge
        omega
    refine hkept.trans (h.frame address ?_)
    push_cast at houtside
    omega
  · exact h.nBytesRead

theorem readLoop_of_le (h : minSize ≤ bytesRead) (results : List RecvResult) (dest : ℤ) (s : TCPInput) :
    readLoop minSize maxSize results bytesRead dest s = s.readReturns bytesRead := by
  cases results with
  | nil => rw [readLoop, if_neg (not_lt.mpr h)]
  | cons result rest => rw [readLoop, if_neg (not_lt.mpr h)]

theorem Loaded.delivered (h : Loaded target t bytesRead dest s) (hmin : minSize ≤ bytesRead)
    (hmax : bytesRead ≤ maxSize) : Delivered target minSize maxSize bytesRead t (s.readReturns bytesRead).2 where
  minSize_le := hmin
  le_maxSize := hmax
  received := h.received
  content := h.content
  frame := h.frame
  nBytesRead := by
    rw [readReturns, h.nBytesRead]

/-- What `DeliversRun` says of an outcome. -/
def Fine (t : TCPInput) (target : ℤ) (minSize maxSize left : ℕ) : ReadOutcome × TCPInput → Prop
  | (.waiting, _) => left < minSize
  | (.threw _, _) => True
  | (.returned n, s) => Delivered target minSize maxSize n t s

theorem readLoop_received (h : bytesRead < minSize) (hmax : bytesRead ≤ maxSize) (hlt : maxSize < 2 ^ 64)
    (hsome : 0 < deliveredSize maxSize bytesRead count) (rest : List RecvResult) :
    readLoop minSize maxSize (.received count :: rest) bytesRead dest s =
      readLoop minSize maxSize rest (bytesRead + deliveredSize maxSize bytesRead count)
        (dest + deliveredSize maxSize bytesRead count) (s.recv dest maxSize bytesRead (.received count)).2 := by
  have hle := deliveredSize_le hmax hlt count
  have hsmall := deliveredSize_lt maxSize bytesRead count
  have hvalue : (s.recv dest maxSize bytesRead (.received count)).1 = deliveredSize maxSize bytesRead count := rfl
  have hunsigned := asUnsigned_natCast (hsmall.trans (by decide))
  have hsum : (bytesRead + deliveredSize maxSize bytesRead count) % 2 ^ 64 =
      bytesRead + deliveredSize maxSize bytesRead count := Nat.mod_eq_of_lt (by omega)
  rw [readLoop, if_pos h]
  simp only [hvalue, hunsigned, hsum]
  rw [if_neg (by omega), if_neg (by omega)]

/-- While the failure that is not thrown does not come, the loop delivers the stream. -/
theorem readLoop_fine (hlt : maxSize < 2 ^ 64) {results : List RecvResult}
    (h : Loaded target t bytesRead dest s) (hmax : bytesRead ≤ maxSize)
    (hopen : ¬ ShutsDown minSize maxSize results bytesRead) :
    Fine t target minSize maxSize (results.length + bytesRead)
      (readLoop minSize maxSize results bytesRead dest s) := by
  induction results generalizing bytesRead dest s with
  | nil =>
    by_cases hmore : bytesRead < minSize
    · rw [readLoop, if_pos hmore, List.length_nil, zero_add]
      exact hmore
    · rw [readLoop_of_le (not_lt.mp hmore)]
      exact h.delivered (not_lt.mp hmore) hmax
  | cons result rest ih =>
    by_cases hmore : bytesRead < minSize
    · cases result with
      | received count =>
        by_cases hsome : 0 < deliveredSize maxSize bytesRead count
        · have hnext := ih (h.recv maxSize count) (deliveredSize_le hmax hlt count) fun hshut ↦
            hopen ⟨hmore, hsome, hshut⟩
          rw [readLoop_received hmore hmax hlt hsome]
          cases hrun : readLoop minSize maxSize rest (bytesRead + deliveredSize maxSize bytesRead count)
              (dest + deliveredSize maxSize bytesRead count)
              (s.recv dest maxSize bytesRead (.received count)).2 with
          | mk outcome s' =>
            rw [hrun] at hnext
            cases outcome with
            | waiting =>
              have hleft : rest.length + (bytesRead + deliveredSize maxSize bytesRead count) < minSize := hnext
              change (RecvResult.received count :: rest).length + bytesRead < minSize
              rw [List.length_cons]
              omega
            | threw exception => trivial
            | returned n => exact hnext
        · have hvalue : (s.recv dest maxSize bytesRead (.received count)).1 = 0 := by
            change ((deliveredSize maxSize bytesRead count : ℕ) : ℤ) = 0
            omega
          rw [readLoop, if_pos hmore]
          simp only [hvalue]
          trivial
      | closed =>
        rw [readLoop, if_pos hmore]
        trivial
      | failed errorCode =>
        have hthrown : (s.recv dest maxSize bytesRead (.failed errorCode)).1 < 0 ∧
            socketErrno (.failed errorCode) ≠ eshutdown := ⟨neg_one_lt_zero, fun hcode ↦ hopen ⟨hmore, hcode⟩⟩
        rw [readLoop, if_pos hmore]
        simp only [if_pos hthrown]
        trivial
    · rw [readLoop_of_le (not_lt.mp hmore)]
      exact h.delivered (not_lt.mp hmore) hmax

/-- The failure that is not thrown is counted as bytes that have not come. -/
theorem readLoop_shutsDown (hlt : maxSize < 2 ^ 64) (hsmall : minSize < 2 ^ 32)
    {results : List RecvResult} (h : Loaded target t bytesRead dest s) (hmax : bytesRead ≤ maxSize)
    (hshut : ShutsDown minSize maxSize results bytesRead) :
    ∃ n s', readLoop minSize maxSize results bytesRead dest s = (.returned n, s') ∧ s'.received < t.received + n := by
  induction results generalizing bytesRead dest s with
  | nil => exact hshut.elim
  | cons result rest ih =>
    cases result with
    | received count =>
      obtain ⟨hmore, hsome, hrest⟩ := hshut
      rw [readLoop_received hmore hmax hlt hsome]
      exact ih (h.recv maxSize count) (deliveredSize_le hmax hlt count) hrest
    | closed => exact hshut.elim
    | failed errorCode =>
      obtain ⟨hmore, hcode⟩ := hshut
      obtain ⟨n, hn⟩ : ∃ n, n = bytesRead + asUnsigned (-1) := ⟨_, rfl⟩
      have hlarge : n = bytesRead + 4294967295 := hn
      have hsum : (bytesRead + asUnsigned (-1)) % 2 ^ 64 = n := by
        rw [← hn]
        exact Nat.mod_eq_of_lt (by omega)
      have hspared : ¬ ((s.recv dest maxSize bytesRead (.failed errorCode)).1 < 0 ∧
          socketErrno (.failed errorCode) ≠ eshutdown) := fun hthrown ↦ hthrown.2 hcode
      have hnonzero : ¬ (s.recv dest maxSize bytesRead (.failed errorCode)).1 = 0 := by
        change ¬ (-1 : ℤ) = 0
        decide
      refine ⟨n, (s.readReturns n).2, ?_, ?_⟩
      · rw [readLoop, if_pos hmore]
        simp only [if_neg hspared, if_neg hnonzero]
        change readLoop minSize maxSize rest ((bytesRead + asUnsigned (-1)) % 2 ^ 64) (dest + asUnsigned (-1)) s = _
        rw [hsum, readLoop_of_le (by omega)]
        rfl
      · change s.received < t.received + n
        rw [h.received]
        omega

theorem deliversRun_iff_fine (hopen : s.inputClosed = false) (results : List RecvResult) :
    DeliversRun s dest minSize maxSize results ↔
      Fine s dest minSize maxSize results.length (readLoop minSize maxSize results 0 dest s) := by
  rw [DeliversRun, read, if_neg (by rw [hopen]; exact Bool.false_ne_true)]
  cases readLoop minSize maxSize results 0 dest s with
  | mk outcome s' => cases outcome <;> rfl

/-- A `read` of an open stream delivers a run of it if and only if no call of `recv` that it makes for
missing bytes fails with `ESHUTDOWN`. -/
theorem deliversRun_iff (s : TCPInput) (dest : ℤ) (results : List RecvResult) (hlt : maxSize < 2 ^ 64) :
    (s.inputClosed = true ∨ ¬ ShutsDown minSize maxSize results 0 → DeliversRun s dest minSize maxSize results) ∧
      (minSize < 2 ^ 32 → DeliversRun s dest minSize maxSize results →
        s.inputClosed = true ∨ ¬ ShutsDown minSize maxSize results 0) := by
  constructor
  · intro hcases
    by_cases hclosed : s.inputClosed = true
    · rw [DeliversRun, read, if_pos hclosed]
      trivial
    · rw [deliversRun_iff_fine (Bool.eq_false_of_not_eq_true hclosed)]
      exact readLoop_fine hlt (loaded_start s dest) (Nat.zero_le _) (hcases.resolve_left hclosed)
  · intro hsmall hdelivers
    by_cases hclosed : s.inputClosed = true
    · exact .inl hclosed
    · right
      intro hshut
      rw [deliversRun_iff_fine (Bool.eq_false_of_not_eq_true hclosed)] at hdelivers
      obtain ⟨n, s', hrun, hfew⟩ :=
        readLoop_shutsDown hlt hsmall (loaded_start s dest) (Nat.zero_le _) hshut
      rw [hrun] at hdelivers
      have hall := Delivered.received hdelivers
      omega

/-- Nothing has been received yet. -/
def fresh : TCPInput := ⟨fun _ ↦ 0, 0, fun _ ↦ 0, false, 0, 0⟩

theorem deliversRun_two :
    (fresh.inputClosed = true ∨ ¬ ShutsDown 2 16 [.received 1, .received 4] 0 →
        DeliversRun fresh 0 2 16 [.received 1, .received 4]) ∧
      (2 < 2 ^ 32 → DeliversRun fresh 0 2 16 [.received 1, .received 4] →
        fresh.inputClosed = true ∨ ¬ ShutsDown 2 16 [.received 1, .received 4] 0) :=
  deliversRun_iff fresh 0 [.received 1, .received 4] (by decide)

/-- One call of `recv` that fails is returned as four gigabytes. -/
theorem read_shutDown : ¬ DeliversRun fresh 0 1 16 [.failed eshutdown] := by
  intro h
  rw [deliversRun_iff_fine rfl] at h
  have hshut : ShutsDown 1 16 [.failed eshutdown] 0 := ⟨by decide, rfl⟩
  obtain ⟨n, s', hrun, hfew⟩ :=
    readLoop_shutsDown (by decide) (by decide) (loaded_start fresh 0) (Nat.zero_le _) hshut
  rw [hrun] at h
  have hall := Delivered.received h
  omega

end TCPInput

end DxApi.Net
