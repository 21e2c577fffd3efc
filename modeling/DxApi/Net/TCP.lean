import DxApi.Lib.Exec
import Mathlib.Data.List.Basic
import Mathlib.Algebra.Order.Ring.Int

/-!
# Writing to a socket

`IOStreamTCP::write` hands a buffer to the operating system's `send` once and returns how many bytes
were accepted. How `send` behaves is a parameter: each call accepts some number of bytes from one to
the length it is given, or fails.
-/

namespace DxApi.Net

open Exec

/-- What a call of the operating system's `send` does. -/
inductive SendResult
  | accepts (count : ℕ)
  | fails (errorCode : ℤ)

/-- Why `write` throws an `IOStreamException`. -/
inductive IOStreamException
  | notConnected
  | sendFailed (errorCode : ℤ)
  deriving DecidableEq, Repr

/-- The data members of `IOStreamTCP` that writing uses, with the behaviour of `send` call by call
and a record of the writes that returned: each buffer, and how much of it was accepted. -/
structure IOStreamTCP where
  send : ℕ → SendResult
  sends : ℕ
  outputClosed : Bool
  nBytesWritten : ℕ
  writes : List (List UInt8 × ℕ)

/-- The number of bytes that a call with a buffer of `length` bytes accepts: at least one of them, if
there is one. -/
def acceptedCount (count length : ℕ) : ℕ := min length (max 1 count)

/-- The error of a call with a negative length. -/
def invalidArgument : ℤ := 22

namespace IOStreamTCP

/-- `IOStreamTCP::write`: the size is given to `send` as an `int`. -/
def write (data : List UInt8) : EStateM IOStreamException IOStreamTCP ℕ := do
  let s ← get
  if s.outputClosed then
    throw .notConnected
  else
    let size := data.length % 2 ^ 32
    set { s with sends := s.sends + 1 }
    match (if size < 2 ^ 31 then s.send s.sends else .fails invalidArgument) with
    | .fails errorCode => throw (.sendFailed errorCode)
    | .accepts count =>
      let result := acceptedCount count size
      modify fun s ↦ { s with
        nBytesWritten := s.nBytesWritten + result
        writes := s.writes ++ [(data, result)] }
      return result

/-- `IOStreamTCP::closeOutput`. -/
def closeOutput (s : IOStreamTCP) : IOStreamTCP := { s with outputClosed := true }

/-- All bytes handed to `write`. -/
def handed (s : IOStreamTCP) : List UInt8 := (s.writes.map Prod.fst).flatten

/-- All bytes the socket accepted. -/
def accepted (s : IOStreamTCP) : List UInt8 :=
  (s.writes.map fun buffer ↦ buffer.1.take buffer.2).flatten

/-- Every call of `send` accepted the whole buffer that was handed to `write`. -/
def SendsAll (s : IOStreamTCP) : Prop := ∀ buffer ∈ s.writes, buffer.1.length ≤ buffer.2

/-- The next `write`, of `size` bytes, returns. -/
def CanWrite (size : ℕ) (s : IOStreamTCP) : Prop :=
  s.outputClosed = false ∧ size % 2 ^ 32 < 2 ^ 31 ∧ ∃ count, s.send s.sends = .accepts count

/-- What a `write` that returns has done. -/
structure Written (data : List UInt8) (result : ℕ) (s s' : IOStreamTCP) : Prop where
  result_le : result ≤ data.length
  writes : s'.writes = s.writes ++ [(data, result)]
  send : s'.send = s.send
  outputClosed : s'.outputClosed = s.outputClosed
  canWrite : CanWrite data.length s

theorem write_spec (data : List UInt8) (s : IOStreamTCP) :
    wp (write data) (fun result s' ↦ Written data result s s')
      (fun _ s' ↦ s'.writes = s.writes ∧ s'.outputClosed = s.outputClosed ∧
        ¬ CanWrite data.length s) s := by
  simp only [write, wp_bind, wp_get, wp_ite, wp_throw, wp_set]
  constructor
  · intro hclosed
    refine ⟨trivial, trivial, fun hcan ↦ ?_⟩
    rw [hcan.1] at hclosed
    cases hclosed
  · intro hopen
    split
    next errorCode herror =>
      refine ⟨rfl, rfl, fun hcan ↦ ?_⟩
      obtain ⟨-, hsize, count, hcount⟩ := hcan
      rw [if_pos hsize, hcount] at herror
      cases herror
    next count hcount =>
      have hsize : data.length % 2 ^ 32 < 2 ^ 31 := by
        by_contra hbig
        rw [if_neg hbig] at hcount
        cases hcount
      rw [if_pos hsize] at hcount
      have hcan : CanWrite data.length s := ⟨Bool.not_eq_true _ ▸ hopen, hsize, count, hcount⟩
      simp only [wp_bind, wp_modify, wp_pure]
      refine ⟨?_, rfl, rfl, rfl, hcan⟩
      calc acceptedCount count (data.length % 2 ^ 32)
          ≤ data.length % 2 ^ 32 := Nat.min_le_left _ _
        _ ≤ data.length := Nat.mod_le _ _

theorem handed_of_written {data : List UInt8} {result : ℕ} {s s' : IOStreamTCP}
    (h : Written data result s s') : s'.handed = s.handed ++ data := by
  rw [handed, h.writes, List.map_append, List.flatten_append]
  simp [handed]

theorem handed_congr {s s' : IOStreamTCP} (h : s'.writes = s.writes) : s'.handed = s.handed := by
  rw [handed, handed, h]

theorem length_taken_le (writes : List (List UInt8 × ℕ)) :
    (writes.map fun buffer ↦ buffer.1.take buffer.2).flatten.length ≤
      (writes.map Prod.fst).flatten.length := by
  induction writes with
  | nil => exact le_rfl
  | cons buffer writes ih =>
    simp only [List.map_cons, List.flatten_cons, List.length_append, List.length_take]
    omega

/-- Parts of buffers make up the whole buffers only if each part is the whole. -/
theorem taken_eq_iff (writes : List (List UInt8 × ℕ)) :
    (writes.map fun buffer ↦ buffer.1.take buffer.2).flatten = (writes.map Prod.fst).flatten ↔
      ∀ buffer ∈ writes, buffer.1.length ≤ buffer.2 := by
  induction writes with
  | nil => simp
  | cons buffer writes ih =>
    rw [List.forall_mem_cons, ← ih]
    simp only [List.map_cons, List.flatten_cons]
    constructor
    · intro hwhole
      have hlength := congrArg List.length hwhole
      have hle := length_taken_le writes
      simp only [List.length_append, List.length_take] at hlength
      have hall : buffer.1.length ≤ buffer.2 := by omega
      rw [List.take_of_length_le hall] at hwhole
      exact ⟨hall, List.append_cancel_left hwhole⟩
    · rintro ⟨hall, hrest⟩
      rw [List.take_of_length_le hall, hrest]

/-- The bytes accepted are the bytes handed over exactly if every call accepted all it was given. -/
theorem accepted_eq_handed_iff (s : IOStreamTCP) : s.accepted = s.handed ↔ s.SendsAll :=
  taken_eq_iff s.writes

/-! ## Runs -/

/-- The call of `send` accepts a buffer of `length` bytes whole. -/
def TakesWhole (length : ℕ) (result : SendResult) : Prop :=
  ∃ count, result = .accepts count ∧ length ≤ acceptedCount count (length % 2 ^ 32)

/-- Nothing has been written yet. -/
def Fresh (s : IOStreamTCP) : Prop := s.sends = 0 ∧ s.writes = []

/-- No call of `send` has failed. -/
def NoneFailed (s : IOStreamTCP) : Prop := s.sends = s.writes.length

/-- As long as no call has failed, the writes are those of the calls of `send`, one by one. -/
structure Recorded (s : IOStreamTCP) : Prop where
  sends : s.writes.length ≤ s.sends
  writes : s.NoneFailed → ∀ (position : ℕ) (buffer : List UInt8 × ℕ),
    s.writes[position]? = some buffer →
      ∃ count, s.send position = .accepts count ∧
        buffer.2 = acceptedCount count (buffer.1.length % 2 ^ 32)

theorem Fresh.recorded {s : IOStreamTCP} (h : s.Fresh) : s.Recorded := by
  obtain ⟨hsends, hwrites⟩ := h
  constructor
  · simp [hwrites]
  · intro _ position buffer hbuffer
    simp [hwrites] at hbuffer

theorem write_recorded (data : List UInt8) : Preserves Recorded (write data) := by
  intro s hs
  simp only [write, wp_bind, wp_get, wp_ite, wp_throw, wp_set]
  refine ⟨fun _ ↦ hs, fun _ ↦ ?_⟩
  have hsends := hs.sends
  split
  next errorCode _ =>
    refine ⟨Nat.le_succ_of_le hsends, fun hnone ↦ ?_⟩
    change s.sends + 1 = s.writes.length at hnone
    omega
  next count hcount =>
    have haccepts : s.send s.sends = .accepts count := by
      by_cases hsize : data.length % 2 ^ 32 < 2 ^ 31
      · rwa [if_pos hsize] at hcount
      · rw [if_neg hsize] at hcount
        cases hcount
    simp only [wp_bind, wp_modify, wp_pure]
    constructor
    · simpa using hsends
    · intro hnone position buffer hbuffer
      have hbefore : s.sends = s.writes.length := by
        simpa [NoneFailed] using hnone
      rcases lt_trichotomy position s.writes.length with hlt | heq | hgt
      · rw [List.getElem?_append_left hlt] at hbuffer
        exact hs.writes hbefore position buffer hbuffer
      · rw [heq, List.getElem?_append_right le_rfl, Nat.sub_self] at hbuffer
        have hlast : (data, acceptedCount count (data.length % 2 ^ 32)) = buffer :=
          Option.some.inj hbuffer
        rw [← hlast, heq, ← hbefore]
        exact ⟨count, haccepts, rfl⟩
      · rw [List.getElem?_eq_none (by rw [List.length_append]; exact hgt)] at hbuffer
        cases hbuffer

/-- When no call has failed, the bytes accepted are the bytes handed over exactly if each call of
`send` took its buffer whole. -/
theorem Recorded.accepted_eq_handed_iff {s : IOStreamTCP} (h : s.Recorded) (hnone : s.NoneFailed) :
    s.accepted = s.handed ↔ ∀ (position : ℕ) (buffer : List UInt8 × ℕ),
      s.writes[position]? = some buffer → TakesWhole buffer.1.length (s.send position) := by
  rw [IOStreamTCP.accepted_eq_handed_iff]
  constructor
  · intro hall position buffer hbuffer
    obtain ⟨count, hcount, hresult⟩ := h.writes hnone position buffer hbuffer
    have hwhole := hall buffer (List.mem_of_getElem? hbuffer)
    exact ⟨count, hcount, hresult ▸ hwhole⟩
  · intro hall buffer hmem
    obtain ⟨position, hbuffer⟩ := List.mem_iff_getElem?.mp hmem
    obtain ⟨count, hcount, hresult⟩ := h.writes hnone position buffer hbuffer
    obtain ⟨count', hcount', hwhole⟩ := hall position buffer hbuffer
    rw [hcount] at hcount'
    cases hcount'
    rwa [hresult]

end IOStreamTCP

end DxApi.Net
