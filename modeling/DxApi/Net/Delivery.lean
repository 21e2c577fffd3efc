import DxApi.Loader.Output
import DxApi.Net.Request
import DxApi.Session.SessionHandler

/-!
# What the socket accepts of an output

Loaders, the session handler and HTTP requests all write through `IOStreamTCP::write`, and none of
them looks at how much of a buffer was accepted: a buffer of which only a part was accepted is reset
or dropped like any other. The bytes on the wire are the bytes written only if `send` takes every
buffer whole.
-/

namespace DxApi.Net

open Exec IOStreamTCP Loader Session

/-- If no call of `send` has failed, the bytes accepted are the bytes handed to `write`, in order,
exactly if each call took the buffer it was given whole. -/
def DeliversIff (s : IOStreamTCP) : Prop :=
  s.NoneFailed → (s.accepted = s.handed ↔ ∀ (position : ℕ) (buffer : List UInt8 × ℕ),
    s.writes[position]? = some buffer → TakesWhole buffer.1.length (s.send position))

theorem IOStreamTCP.Recorded.deliversIff {s : IOStreamTCP} (h : s.Recorded) : DeliversIff s :=
  fun hnone ↦ h.accepted_eq_handed_iff hnone

/-- Everything that writes through `IOStreamTCP::write`: a loader from `open` to `finish`, the session
handler, and a request. -/
inductive Sender
  | loader (request : OpenRequest) (answers : ServerAnswers) (buffer : ℤ) (calls : List Call)
      (l : TickLoaderImpl)
  | session (calls : List SessionCall) (h : SessionHandler)
  | request (r : Request) (s : IOStreamTCP)

namespace Sender

/-- The connection that the sender is given. -/
def before : Sender → IOStreamTCP
  | loader _ _ _ _ l => l.ioStream
  | session _ h => h.ioStream
  | request _ s => s

/-- The connection after the run. -/
def after : Sender → IOStreamTCP
  | loader opening answers buffer calls l => (wholeUpload opening answers buffer calls l).ioStream
  | session calls h => (runCalls calls h).ioStream
  | request r s => finalState (sendRequest r) s

end Sender

/-- In every run of a loader, of the session handler and of a request, over a connection on which
nothing was sent before and on which no call fails, the output arrives exactly if every call of
`send` takes its buffer whole. -/
theorem output_delivered_iff (sender : Sender) (hfresh : sender.before.Fresh) :
    DeliversIff sender.after := by
  have hclose : ∀ s : IOStreamTCP, s.Recorded → s.closeOutput.Recorded :=
    fun s hs ↦ ⟨hs.sends, hs.writes⟩
  cases sender with
  | loader opening answers buffer calls l =>
    have hrecorded := wholeUpload_kept write_recorded hclose opening answers buffer calls
      (Fresh.recorded hfresh)
    exact hrecorded.deliversIff
  | session calls h =>
    have hrecorded := runCalls_kept write_recorded (Fresh.recorded hfresh) calls
    exact hrecorded.deliversIff
  | request r s =>
    have hrecorded := (sendRequest_kept write_recorded r).finalState (Fresh.recorded hfresh)
    exact hrecorded.deliversIff

/-- A connection whose `send` accepts `count` bytes at each call. -/
def connection (count : ℕ) : IOStreamTCP where
  send := fun _ ↦ .accepts count
  sends := 0
  outputClosed := false
  nBytesWritten := 0
  writes := []

/-- A session handler with an empty buffer, over such a connection. -/
def connectedSession (count : ℕ) : SessionHandler where
  writer := Writer.emptyWriter 0x11000
  ioStream := connection count
  connected := true
  nStreamDefRequestsSent := 0
  nPropertyRequestsSent := 0

/-- A request for all streams arrives when its 16 bytes are accepted at once. -/
theorem output_delivered_session :
    (runCalls [.requestGetStreams []] (connectedSession 16)).ioStream.accepted =
      (runCalls [.requestGetStreams []] (connectedSession 16)).ioStream.handed := by
  have hwrites : (runCalls [.requestGetStreams []] (connectedSession 16)).ioStream.writes =
      [([0, 0, 0, 1, 0, 0, 0, 0, 0, 0, 0, 1, 0, 0, 0, 0], 16)] := by
    decide +kernel
  have hnone : (runCalls [.requestGetStreams []] (connectedSession 16)).ioStream.NoneFailed := by
    rw [NoneFailed, hwrites]
    decide +kernel
  have hsend : ∀ position, (runCalls [.requestGetStreams []] (connectedSession 16)).ioStream.send
      position = .accepts 16 := fun _ ↦ rfl
  apply (output_delivered_iff (.session [.requestGetStreams []] (connectedSession 16)) ⟨rfl, rfl⟩
    hnone).mpr
  intro position buffer hbuffer
  simp only [Sender.after] at hbuffer ⊢
  rw [hwrites] at hbuffer
  have hmem := List.mem_of_getElem? hbuffer
  rw [List.mem_singleton] at hmem
  rw [hmem, hsend]
  exact ⟨16, rfl, by decide⟩

/-- When `send` accepts one byte of it, the rest of the request is lost. -/
theorem short_send_loses :
    ¬ ∀ (calls : List SessionCall) (h : SessionHandler), h.ioStream.Fresh →
      (runCalls calls h).ioStream.NoneFailed →
      (runCalls calls h).ioStream.accepted = (runCalls calls h).ioStream.handed := by
  intro hall
  have hwrites : (runCalls [.requestGetStreams []] (connectedSession 1)).ioStream.writes =
      [([0, 0, 0, 1, 0, 0, 0, 0, 0, 0, 0, 1, 0, 0, 0, 0], 1)] := by
    decide +kernel
  have hnone : (runCalls [.requestGetStreams []] (connectedSession 1)).ioStream.NoneFailed := by
    rw [NoneFailed, hwrites]
    decide +kernel
  have hsame := hall [.requestGetStreams []] (connectedSession 1) ⟨rfl, rfl⟩ hnone
  rw [accepted, handed, hwrites] at hsame
  exact absurd hsame (by decide)

end DxApi.Net
