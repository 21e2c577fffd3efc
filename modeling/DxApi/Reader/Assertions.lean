import DxApi.Reader.CheckedChunks

/-!
# The assertions of the de-chunker

In every run of calls on a `DataReaderHTTPchunked`, in either build, all assertions of `getFromStream`,
`skipStream` and `getOrSkipChunked` are true exactly if there is room for the next header at the end of every
chunk that the run leaves. Gets can see to that. Where a chunk that is skipped ends in the buffer nobody can
see to, and nothing but an assertion keeps it away from the buffer's end.
-/

namespace DxApi.Reader.Checked

open Exec ByteMemory

/-! ## Runs of calls -/

/-- The chunks that the loop of `getBytes` leaves. -/
def copyExits (debug : Bool) : ℕ → ℤ → ℕ → DataReader → List ChunkExit
  | 0, _, _, _ => []
  | fuel + 1, p, dataLength, r =>
    let n := r.dataEnd - p
    if n < dataLength then
      requestExits debug false (p + n) 1 r ++
        collect (getOrSkipChunked debug false (p + n) 1)
          (fun p r ↦ copyExits debug fuel p (dataLength - n.toNat) r) r
    else []

/-- The chunks that a call leaves. -/
def callExits (debug : Bool) (r : DataReader) : ReadCall → List ChunkExit
  | .bytes n =>
    if r.dataEnd < r.dataPtr + n then
      requestExits debug false r.dataPtr n { r with dataPtr := r.dataPtr + n }
    else []
  | .peek n => if r.dataEnd < r.dataPtr + n then requestExits debug false r.dataPtr n r else []
  | .skip n =>
    if r.dataEnd < r.dataPtr + n then
      requestExits debug true r.dataPtr n { r with dataPtr := r.dataPtr + n }
    else []
  | .getBytes n => copyExits debug (n + 1) r.dataPtr n r

/-- The chunks that a run of calls leaves, with the reader at each of them. -/
def exits (debug : Bool) : DataReader → List ReadCall → List ChunkExit
  | _, [] => []
  | r, call :: calls =>
    callExits debug r call ++ collect (run debug call) (fun _ r ↦ exits debug r calls) r

/-- The assertion that ends a run of calls. -/
def failedAssertion (debug : Bool) : DataReader → List ReadCall → Option Assertion
  | _, [] => none
  | r, call :: calls =>
    match run debug call r with
    | .ok _ r => failedAssertion debug r calls
    | .error (.thrown _) _ => none
    | .error (.assertion place) _ => some place

/-- Every assertion that a run of calls reaches is true. -/
def AssertionsHold (debug : Bool) (r : DataReader) (calls : List ReadCall) : Prop :=
  failedAssertion debug r calls = none

variable {debug skip : Bool} {r : DataReader} {start size remaining : ℤ} {head : List UInt8} {chunks : List Chunk}

/-! ## Calls -/

/-- A reader between two calls: there is payload at `p`. -/
def Located (r : DataReader) (p : ℤ) : Prop :=
  ∃ rest left, Ready .httpChunked r p rest left

theorem located_of_chunks {p : ℤ} (h : Holds r p (head ++ wireOf chunks))
    (hend : (head.length : ℤ) = r.chunkEnd - p) (hdataEnd : r.dataEnd = min r.streamDataEnd r.chunkEnd) :
    Located r p :=
  ⟨head ++ payloadOf chunks, 0, (at_chunked rfl).mpr ⟨_, h, head, chunks, hend, rfl, rfl⟩, hdataEnd,
    fun habs ↦ by cases habs⟩

theorem Located.exists_chunks {p : ℤ} (h : Located r p) :
    ∃ head chunks, Holds r p (head ++ wireOf chunks) ∧ (head.length : ℤ) = r.chunkEnd - p ∧
      r.dataEnd = min r.streamDataEnd r.chunkEnd := by
  obtain ⟨rest, left, hat, hdataEnd, -⟩ := h
  obtain ⟨raw, hholds, head, chunks, hend, rfl, -⟩ := (at_chunked rfl).mp hat
  exact ⟨head, chunks, hholds, hend, hdataEnd⟩

/-- What `getOrSkipChunked` leaves: a get has its bytes, with the position not behind them. -/
structure Answered (skip : Bool) (r : DataReader) (size : ℤ) (p : ℤ) (r' : DataReader) : Prop where
  relocated : Relocated r r'
  located : Located r' p
  skipped : skip = true → p = r'.dataPtr
  available : skip = false → p + size ≤ r'.dataEnd ∧ r'.dataPtr ≤ p + size

theorem Located.le_dataEnd {p : ℤ} (h : Located r p) : p ≤ r.dataEnd := by
  obtain ⟨rest, left, hready⟩ := h
  exact hready.le_dataEnd

/-- The position is inside the chunk. -/
theorem Answered.dataPtr_le {p : ℤ} {r' : DataReader} (h : Answered skip r size p r') :
    r'.dataPtr ≤ r'.chunkEnd := by
  obtain ⟨head, chunks, hholds, hend, hdataEnd⟩ := h.located.exists_chunks
  cases skip with
  | true =>
    have hposition := h.skipped rfl
    omega
  | false =>
    have havailable := h.available rfl
    omega

theorem getOrSkipInChunk_spec (h : Holds r start (head ++ wireOf chunks))
    (hhead : (head.length : ℤ) = remaining) (hpos : 0 < size) (hle : size ≤ remaining) (hbuffer : HasBuffer r)
    (hfits : Fits skip size r) (hposition : skip = false → r.dataPtr ≤ start + size) :
    wp (getOrSkipInChunk debug skip start size remaining) (Answered skip r size) Disconnected r := by
  cases skip with
  | true =>
    simp only [getOrSkipInChunk, if_true, wp_bind, wp_get, wp_unchecked, setChunkEnd, wp_modify, wp_pure]
    refine wp_mono (skipStream_spec h hpos.le hbuffer) ?_ (fun _ _ ↦ And.right)
    rintro _ r' ⟨⟨⟨mem, dataPtr, streamDataEnd, s, rfl⟩, hholds, -⟩, -⟩
    have hdrop : (head ++ wireOf chunks).drop size.toNat = head.drop size.toNat ++ wireOf chunks :=
      List.drop_append_of_le_length (by omega)
    rw [hdrop] at hholds
    obtain ⟨hstart, hstop, hend, hraw⟩ := hholds
    refine ⟨⟨_, _, _, _, _, _, rfl⟩, ?_, fun _ ↦ rfl, by simp⟩
    refine located_of_chunks ⟨hstart, hstop, hend, hraw⟩ ?_ rfl
    rw [List.length_drop]
    simp only
    omega
  | false =>
    have hroom : size ≤ r.bufferEnd - r.bufferStart := by
      simp only [Fits, headerRequest, chunkHeaderSizeMax, Bool.false_eq_true, if_false] at hfits
      omega
    simp only [getOrSkipInChunk, Bool.false_eq_true, if_false, wp_bind, wp_unchecked, setChunkEnd, wp_modify,
      wp_pure]
    refine wp_mono (getFromStream_spec h hpos hroom) ?_ (fun _ _ ↦ id)
    rintro p r' ⟨⟨mem, dataPtr, streamDataEnd, s, rfl⟩, ⟨hstart, hstop, hend, hraw⟩, -, hread, hkeeps⟩
    have hbehind := hkeeps size hpos.le (hposition rfl)
    refine ⟨⟨_, _, _, _, _, _, rfl⟩, ?_, by simp, fun _ ↦ ⟨?_, hbehind⟩⟩
    · refine located_of_chunks ⟨hstart, hstop, hend, hraw⟩ ?_ rfl
      simp only
      omega
    · simp only at hread ⊢
      omega

/-- An assertion ends a call exactly if it leaves a chunk without room for the next header. -/
theorem getOrSkipChunked_spec (h : Located r start) (hbeyond : r.dataEnd < start + size) (hbuffer : HasBuffer r)
    (hfits : Fits skip size r) (hposition : skip = false → r.dataPtr ≤ start + size) :
    Decides AboutRoom (∀ exit ∈ requestExits debug skip start size r, exit.HasRoom)
      (getOrSkipChunked debug skip start size) (Answered skip r size) Disconnected r := by
  have hle := h.le_dataEnd
  obtain ⟨head, chunks, hholds, hend, hdataEnd⟩ := h.exists_chunks
  have hstop := hholds.streamDataEnd_le
  have hwithin : r.dataEnd ≤ r.bufferEnd := by omega
  have hends : r.dataEnd = r.streamDataEnd ∨ r.dataEnd = r.chunkEnd := by omega
  simp only [getOrSkipChunked, decides_get_bind, check_bind hle, check_bind hbeyond, check_bind hwithin,
    check_bind hends]
  by_cases hinside : size ≤ r.chunkEnd - start
  · have hsame : r.streamDataEnd = r.dataEnd := by omega
    have hchunk : r.streamDataEnd ≤ r.chunkEnd := by omega
    simp only [if_pos hinside, check_bind hsame, check_bind hchunk, requestExits]
    refine decides_of_wp ?_ (by simp)
    rw [wp_bind]
    refine wp_mono (getOrSkipInChunk_spec hholds hend (by omega) hinside hbuffer hfits hposition) ?_
      (fun _ _ ↦ id)
    intro p r' hanswered
    have hafter := hanswered.dataPtr_le
    simp only [wp_bind, wp_get, wp_check_of hafter, wp_pure]
    exact hanswered
  · have hlength := hholds.length_eq
    have hbegin := hholds.le_streamDataEnd
    simp only [if_neg hinside, requestExits]
    refine (enterChunks_spec hholds hend (not_le.mp hinside) hbuffer hfits (by unfold unread; omega)).bind_wp ?_
    rintro ⟨p, left, remaining⟩ r₁ ⟨head₁, chunks₁, hgoes, hdone⟩
    have hget (hskip : skip = false) : left = size := (hgoes.get_keeps hskip).1
    have hposition₁ (hskip : skip = false) : r₁.dataPtr ≤ p + left := by
      rw [hget hskip]
      exact (hgoes.get_keeps hskip).2 size (by omega) (hposition hskip)
    have hbuffer₁ : HasBuffer r₁ := hgoes.refilled.buffer_pos hbuffer
    rw [wp_bind]
    refine wp_mono (getOrSkipInChunk_spec hgoes.holds hgoes.length_eq hgoes.size_pos hdone hbuffer₁
      (hfits.mono hgoes.size_le hgoes.refilled) hposition₁) ?_ (fun _ _ ↦ id)
    intro p' r' hanswered
    have hrequest : skip = true ∨ p' + left ≤ r'.dataEnd := by
      cases skip with
      | true => exact .inl rfl
      | false => exact .inr (hanswered.available rfl).1
    simp only [wp_bind, wp_get, wp_check_of hrequest, wp_pure]
    refine ⟨hgoes.refilled.relocated hanswered.relocated, hanswered.located, hanswered.skipped,
      fun hskip ↦ ?_⟩
    rw [← hget hskip]
    exact hanswered.available hskip

theorem Located.advance {p : ℤ} (h : Located r p) {count : ℕ} (hle : p + count ≤ r.dataEnd) :
    Located r (p + count) := by
  obtain ⟨rest, left, hready⟩ := h
  exact ⟨_, _, hready.advance hle⟩

theorem Located.withDataPtr {p : ℤ} (h : Located r p) (dataPtr : ℤ) :
    Located { r with dataPtr := dataPtr } p := by
  obtain ⟨rest, left, hready⟩ := h
  exact ⟨rest, left, hready.withDataPtr dataPtr⟩

theorem fits_of_hasRoom (h : HasRoom .httpChunked skip size r) : Fits skip size r := by
  have hchunked : ReaderClass.httpChunked.isChunked = true := rfl
  rwa [HasRoom, contiguous, if_pos hchunked] at h

theorem copyBuffered_spec {fuel n : ℕ} {p : ℤ} (h : Located r p) (hbuffer : HasBuffer r)
    (hfits : HasRoom .httpChunked false 1 r) (hposition : r.dataPtr ≤ r.dataEnd + 1) (hfuel : 0 < fuel)
    (henough : (n : ℤ) + 1 ≤ fuel + min (r.dataEnd - p) 1) :
    Decides AboutRoom (∀ exit ∈ copyExits debug fuel p n r, exit.HasRoom) (copyBuffered debug fuel p n)
      (fun _ r' ↦ Moved r r' ∧ Located r' r'.dataPtr) Disconnected r := by
  induction fuel generalizing r p n with
  | zero => omega
  | succ fuel ih =>
    have hle := h.le_dataEnd
    simp only [copyBuffered, copyExits, decides_get_bind]
    by_cases hshort : r.dataEnd - p < n
    · simp only [if_pos hshort, List.forall_mem_append, forall_mem_collect]
      obtain ⟨count, hcount⟩ : ∃ count : ℕ, r.dataEnd - p = count := ⟨(r.dataEnd - p).toNat, by omega⟩
      rw [hcount] at hshort henough ⊢
      rw [Int.toNat_natCast]
      have hend : p + count ≤ r.dataEnd := by omega
      have hone : Decides AboutRoom _ (getOrSkipChunked debug false (p + count) 1) _ Disconnected r :=
        getOrSkipChunked_spec (h.advance hend) (by omega) hbuffer (fits_of_hasRoom hfits) (fun _ ↦ by omega)
      refine hone.bind fun p' r' _ hanswered ↦ ?_
      have havailable := hanswered.available rfl
      have hmoved := hanswered.relocated.moved
      refine (ih hanswered.located (hmoved.hasBuffer.mpr hbuffer) (hmoved.hasRoom.mpr hfits) (by omega)
        (by omega) (by omega)).bind_wp ?_
      rintro copied r'' ⟨hmoved', hlocated'⟩
      exact ⟨hmoved.trans hmoved', hlocated'⟩
    · simp only [if_neg hshort]
      refine decides_of_wp ?_ (by simp)
      simp only [wp_bind, wp_set, wp_pure]
      exact ⟨moved_dataPtr r _, (h.advance (by omega)).withDataPtr _⟩

theorem bytes_spec {n : ℕ} (h : Located r r.dataPtr) (hbuffer : HasBuffer r)
    (hfits : HasRoom .httpChunked false n r) :
    Decides AboutRoom (∀ exit ∈ callExits debug r (.bytes n), exit.HasRoom) (bytes debug n)
      (fun _ r' ↦ Moved r r' ∧ Located r' r'.dataPtr) Disconnected r := by
  simp only [bytes, callExits, decides_get_bind, decides_set_bind]
  by_cases hbarrier : r.dataEnd < r.dataPtr + n
  · simp only [if_pos hbarrier]
    have hget : Decides AboutRoom _ (getOrSkipChunked debug false r.dataPtr n) _ Disconnected _ :=
      getOrSkipChunked_spec (h.withDataPtr (r.dataPtr + n)) hbarrier hbuffer (fits_of_hasRoom hfits)
        (fun _ ↦ le_rfl)
    refine hget.bind_wp ?_
    intro p r' hanswered
    have havailable := (hanswered.available rfl).1
    simp only [wp_bind, wp_modify, wp_pure]
    have hmoved := (moved_dataPtr r _).trans hanswered.relocated.moved
    exact ⟨hmoved.trans (moved_dataPtr r' _), (hanswered.located.advance havailable).withDataPtr _⟩
  · simp only [if_neg hbarrier]
    refine decides_of_wp ?_ (by simp)
    exact ⟨moved_dataPtr r _, (h.advance (by omega)).withDataPtr _⟩

theorem peek_spec {n : ℕ} (h : Located r r.dataPtr) (hbuffer : HasBuffer r)
    (hfits : HasRoom .httpChunked false n r) :
    Decides AboutRoom (∀ exit ∈ callExits debug r (.peek n), exit.HasRoom) (peek debug n)
      (fun _ r' ↦ Moved r r' ∧ Located r' r'.dataPtr) Disconnected r := by
  simp only [peek, callExits, decides_get_bind]
  by_cases hbarrier : r.dataEnd < r.dataPtr + n
  · simp only [if_pos hbarrier]
    have hget : Decides AboutRoom _ (getOrSkipChunked debug false r.dataPtr n) _ Disconnected r :=
      getOrSkipChunked_spec h hbarrier hbuffer (fits_of_hasRoom hfits) (fun _ ↦ by omega)
    refine hget.bind_wp ?_
    intro p r' hanswered
    simp only [wp_bind, wp_modify, wp_pure]
    exact ⟨hanswered.relocated.moved.trans (moved_dataPtr r' _), hanswered.located.withDataPtr _⟩
  · simp only [if_neg hbarrier]
    exact decides_of_wp (wp_pure.mpr ⟨Moved.refl r, h⟩) (by simp)

theorem skip_spec {n : ℕ} (h : Located r r.dataPtr) (hbuffer : HasBuffer r)
    (hfits : HasRoom .httpChunked true n r) :
    Decides AboutRoom (∀ exit ∈ callExits debug r (.skip n), exit.HasRoom) (Checked.skip debug n)
      (fun _ r' ↦ Moved r r' ∧ Located r' r'.dataPtr) Disconnected r := by
  simp only [Checked.skip, callExits, decides_get_bind, decides_set_bind]
  by_cases hbarrier : r.dataEnd < r.dataPtr + n
  · simp only [if_pos hbarrier]
    have hskip : Decides AboutRoom _ (getOrSkipChunked debug true r.dataPtr n) _ Disconnected _ :=
      getOrSkipChunked_spec (h.withDataPtr (r.dataPtr + n)) hbarrier hbuffer (fits_of_hasRoom hfits) (by simp)
    refine hskip.bind_wp ?_
    intro p r' hanswered
    rw [wp_pure, ← hanswered.skipped rfl]
    exact ⟨(moved_dataPtr r _).trans hanswered.relocated.moved, hanswered.located⟩
  · simp only [if_neg hbarrier]
    refine decides_of_wp ?_ (by simp)
    exact ⟨moved_dataPtr r _, (h.advance (by omega)).withDataPtr _⟩

theorem run_spec {call : ReadCall} (h : Located r r.dataPtr) (hbuffer : HasBuffer r)
    (hfits : call.Fits .httpChunked r) :
    Decides AboutRoom (∀ exit ∈ callExits debug r call, exit.HasRoom) (run debug call)
      (fun _ r' ↦ Moved r r' ∧ Located r' r'.dataPtr) Disconnected r := by
  cases call with
  | bytes n => exact (bytes_spec h hbuffer hfits).bind_wp fun _ _ ↦ id
  | peek n => exact (peek_spec h hbuffer hfits).bind_wp fun _ _ ↦ id
  | skip n => exact (skip_spec h hbuffer hfits).bind_wp fun _ _ ↦ id
  | getBytes n =>
    have hle := h.le_dataEnd
    simp only [run, callExits, decides_get_bind]
    exact copyBuffered_spec h hbuffer hfits (by omega) (Nat.succ_pos n) (by push_cast; omega)

/-! ## Runs -/

/-- A run fails no assertion or one about the room for a header, where there is none. -/
theorem failedAssertion_cases {calls : List ReadCall} (h : Located r r.dataPtr) (hbuffer : HasBuffer r)
    (hfits : ∀ call ∈ calls, call.Fits .httpChunked r) :
    (failedAssertion debug r calls = none ∧ ∀ exit ∈ exits debug r calls, exit.HasRoom) ∨
      ∃ place, AboutRoom place ∧ failedAssertion debug r calls = some place ∧
        ¬ ∀ exit ∈ exits debug r calls, exit.HasRoom := by
  induction calls generalizing r with
  | nil => exact .inl ⟨rfl, by simp [exits]⟩
  | cons call calls ih =>
    have hspec : Decides AboutRoom _ (run debug call) _ Disconnected r :=
      run_spec h hbuffer (hfits call (by simp))
    rw [failedAssertion, exits, List.forall_mem_append, forall_mem_collect]
    by_cases hclear : ∀ exit ∈ callExits debug r call, exit.HasRoom
    · have hrun := hspec.1 hclear
      cases hresult : run debug call r with
      | ok data r' =>
        rw [wp_ok hresult] at hrun
        obtain ⟨hmoved, hlocated⟩ := hrun
        have hrest := ih hlocated (hmoved.hasBuffer.mpr hbuffer) fun other hother ↦
          ReadCall.fits_of_moved hmoved (hfits other (by simp [hother]))
        dsimp only
        rcases hrest with ⟨hnone, hall⟩ | ⟨place, hplace, hsome, hnot⟩
        · refine .inl ⟨hnone, hclear, fun data' r'' hsame ↦ ?_⟩
          cases hsame
          exact hall
        · exact .inr ⟨place, hplace, hsome, fun hall ↦ hnot (hall.2 data r' rfl)⟩
      | error failure r' =>
        rw [wp_error hresult] at hrun
        cases hrun
        exact .inl ⟨rfl, hclear, fun _ _ hsame ↦ by cases hsame⟩
    · obtain ⟨place, r', hplace, hresult⟩ := (hspec.2 hclear).exists_error
      rw [hresult]
      exact .inr ⟨place, hplace, rfl, fun hall ↦ hclear hall.1⟩

theorem failedAssertion_constructed {payload : List UInt8} {calls : List ReadCall}
    (hconstructed : Constructed r payload) (hfits : ∀ call ∈ calls, call.Fits .httpChunked r) :
    (failedAssertion debug r calls = none ∧ ∀ exit ∈ exits debug r calls, exit.HasRoom) ∨
      ∃ place, AboutRoom place ∧ failedAssertion debug r calls = some place ∧
        ¬ ∀ exit ∈ exits debug r calls, exit.HasRoom := by
  cases calls with
  | nil => exact .inl ⟨rfl, by simp [exits]⟩
  | cons call calls =>
    have hbuffer : HasBuffer r := (hfits call (by simp)).hasBuffer
    exact failedAssertion_cases ⟨payload, 0, hconstructed.ready⟩ hbuffer hfits

/-- No other assertion ever fails. -/
theorem aboutRoom_of_failed {payload : List UInt8} {calls : List ReadCall} {place : Assertion}
    (hconstructed : Constructed r payload) (hfits : ∀ call ∈ calls, call.Fits .httpChunked r)
    (hfailed : failedAssertion debug r calls = some place) : AboutRoom place := by
  rcases failedAssertion_constructed hconstructed hfits with ⟨hnone, -⟩ | ⟨found, hfound, hsome, -⟩
  · cases hfailed.symm.trans hnone
  · cases hfailed.symm.trans hsome
    exact hfound

/-- In every run of either build all assertions are true exactly if there is room for a header at the
end of every chunk that the run leaves. -/
theorem assertionsHold_iff {payload : List UInt8} {calls : List ReadCall}
    (hconstructed : Constructed r payload) (hfits : ∀ call ∈ calls, call.Fits .httpChunked r) :
    AssertionsHold debug r calls ↔ ∀ exit ∈ exits debug r calls, exit.HasRoom := by
  rcases failedAssertion_constructed hconstructed hfits with ⟨hnone, hall⟩ | ⟨place, -, hsome, hnot⟩
  · exact iff_of_true hnone hall
  · refine iff_of_false (fun hnone ↦ ?_) hnot
    cases hsome.symm.trans hnone

/-- Two chunks, entered by a get, a skip and a copy. -/
theorem assertionsHold_across_chunks :
    let first : Chunk := ⟨[0x33], [1, 2, 3], by decide, by decide, by decide⟩
    let second : Chunk := ⟨[0x30, 0x34], [4, 5, 6, 7], by decide, by decide, by decide⟩
    let raw : DataReader := ⟨fun _ ↦ 0, 0, 0, 0, 0, 0, 0, ⟨[], []⟩, 0, 0, fun _ ↦ 0, fun _ ↦ false, 0⟩
    let r := constructChunked raw 100 40 0 ⟨wireOf [first, second], [1, 0, 9]⟩
    AssertionsHold true r [.peek 2, .bytes 2, .skip 3, .getBytes 2, .bytes 1] := by
  intro first second raw r
  have hiff := @assertionsHold_iff true r _ [.peek 2, .bytes 2, .skip 3, .getBytes 2, .bytes 1]
    (.buffered raw 100 40 0 [first, second] [1, 0, 9] (by decide)) (by decide)
  exact hiff.mpr (by decide +kernel)

/-- A chunk that ends six bytes before the end of a buffer of 40 bytes: the skip beyond it fails an
assertion in both builds, and returns where assertions are left out. -/
theorem skip_fails_near_bufferEnd :
    let chunk : Chunk := ⟨[0x31, 0x43], List.replicate 28 0, by decide, by decide, by decide⟩
    let last : Chunk := ⟨[0x31], [1], by decide, by decide, by decide⟩
    let raw : DataReader := ⟨fun _ ↦ 0, 0, 0, 0, 0, 0, 0, ⟨[], []⟩, 0, 0, fun _ ↦ 0, fun _ ↦ false, 0⟩
    let r := constructChunked raw 100 40 0 ⟨wireOf [chunk, last], []⟩
    Constructed r (payloadOf [chunk, last]) ∧ (ReadCall.skip 29).Fits .httpChunked r ∧
      failedAssertion true r [.skip 29] = some .fromBeforeBufferEnd ∧ ¬ AssertionsHold true r [.skip 29] ∧
      failedAssertion false r [.skip 29] = some .fromBeforeBufferEnd ∧ ¬ AssertionsHold false r [.skip 29] ∧
      returns ((ReadCall.skip 29).run .httpChunked) r = true := by
  intro chunk last raw r
  have hdebug : failedAssertion true r [.skip 29] = some .fromBeforeBufferEnd := by decide +kernel
  have hrelease : failedAssertion false r [.skip 29] = some .fromBeforeBufferEnd := by decide +kernel
  refine ⟨.buffered raw 100 40 0 [chunk, last] [] (by decide), by decide, hdebug, ?_, hrelease, ?_, ?_⟩
  · rw [AssertionsHold, hdebug]
    exact nofun
  · rw [AssertionsHold, hrelease]
    exact nofun
  · decide +kernel

/-! ## Runs without a skip -/

/-- The call gets data, and with a header there is a byte of the buffer to spare. -/
def GetsWithRoom (r : DataReader) : ReadCall → Prop
  | .bytes n | .peek n => n + chunkHeaderSizeMax < r.bufferEnd - r.bufferStart
  | .getBytes _ => 1 + chunkHeaderSizeMax < r.bufferEnd - r.bufferStart
  | .skip _ => False

theorem GetsWithRoom.fits {call : ReadCall} (h : GetsWithRoom r call) : call.Fits .httpChunked r := by
  have hroom (size : ℤ) (hsize : size + chunkHeaderSizeMax < r.bufferEnd - r.bufferStart) :
      HasRoom .httpChunked false size r := by
    have hchunked : ReaderClass.httpChunked.isChunked = true := rfl
    rw [HasRoom, contiguous, if_pos hchunked]
    exact hsize.le
  cases call with
  | bytes n => exact hroom n h
  | peek n => exact hroom n h
  | skip n => exact h.elim
  | getBytes n => exact hroom 1 h

theorem loopExits_of_get {fuel : ℕ} (h : Holds r start (head ++ wireOf chunks))
    (hhead : (head.length : ℤ) = remaining) (hsize : remaining < size) (hbuffer : HasBuffer r)
    (hroom : size + chunkHeaderSizeMax < r.bufferEnd - r.bufferStart) :
    ∀ exit ∈ loopExits debug false fuel start size remaining r, exit.HasRoom := by
  induction fuel generalizing r start size remaining head chunks with
  | zero => simp [loopExits]
  | succ fuel ih =>
    have hfirst : ChunkExit.HasRoom ⟨false, start, size, remaining, r⟩ := hroom
    have hfits : Fits false size r := hroom.le
    simp only [loopExits, List.forall_mem_cons, forall_mem_collect]
    refine ⟨hfirst, fun found r' hrun ↦ ?_⟩
    have hspec : Decides AboutRoom _ (enterChunk debug false start size remaining) _ Disconnected r :=
      enterChunk_spec h hhead hsize hbuffer hfits
    have henter := hspec.1 hfirst
    rw [wp_ok hrun] at henter
    obtain ⟨head', chunks', hgoes, -⟩ := henter
    have hsame := (hgoes.get_keeps rfl).1
    by_cases hmore : found.2.2 < found.2.1
    · simp only [if_pos hmore]
      have hbuffer' : HasBuffer r' := hgoes.refilled.buffer_pos hbuffer
      refine ih hgoes.holds hgoes.length_eq hmore hbuffer' ?_
      rw [hsame]
      obtain ⟨_, _, _, _, rfl⟩ := hgoes.refilled
      exact hroom
    · simp only [if_neg hmore]
      exact fun _ hnone ↦ absurd hnone List.not_mem_nil

theorem requestExits_of_get (h : Located r start) (hbuffer : HasBuffer r)
    (hroom : size + chunkHeaderSizeMax < r.bufferEnd - r.bufferStart) :
    ∀ exit ∈ requestExits debug false start size r, exit.HasRoom := by
  obtain ⟨head, chunks, hholds, hend, -⟩ := h.exists_chunks
  by_cases hinside : size ≤ r.chunkEnd - start
  · simp only [requestExits, if_pos hinside]
    exact fun _ hnone ↦ absurd hnone List.not_mem_nil
  · simp only [requestExits, if_neg hinside]
    exact loopExits_of_get hholds hend (not_le.mp hinside) hbuffer hroom

theorem copyExits_of_get {fuel n : ℕ} {p : ℤ} (h : Located r p) (hbuffer : HasBuffer r)
    (hposition : r.dataPtr ≤ r.dataEnd + 1) (hroom : 1 + chunkHeaderSizeMax < r.bufferEnd - r.bufferStart) :
    ∀ exit ∈ copyExits debug fuel p n r, exit.HasRoom := by
  induction fuel generalizing r p n with
  | zero => simp [copyExits]
  | succ fuel ih =>
    have hle := h.le_dataEnd
    by_cases hshort : r.dataEnd - p < n
    · simp only [copyExits, if_pos hshort, List.forall_mem_append, forall_mem_collect]
      obtain ⟨count, hcount⟩ : ∃ count : ℕ, r.dataEnd - p = count := ⟨(r.dataEnd - p).toNat, by omega⟩
      have hend : p + count ≤ r.dataEnd := by omega
      have hexits : ∀ exit ∈ requestExits debug false (p + count) 1 r, exit.HasRoom :=
        requestExits_of_get (h.advance hend) hbuffer hroom
      have hone : Decides AboutRoom _ (getOrSkipChunked debug false (p + count) 1) _ Disconnected r :=
        getOrSkipChunked_spec (h.advance hend) (by omega) hbuffer hroom.le (fun _ ↦ by omega)
      rw [hcount]
      refine ⟨hexits, fun p' r' hrun ↦ ?_⟩
      have hanswered := hone.1 hexits
      rw [wp_ok hrun] at hanswered
      have havailable := hanswered.available rfl
      have hmoved := hanswered.relocated.moved
      obtain ⟨hstart, hstop⟩ := hmoved.buffer_eq
      refine ih hanswered.located (hmoved.hasBuffer.mpr hbuffer) (by omega) ?_
      rwa [hstart, hstop]
    · simp only [copyExits, if_neg hshort]
      exact fun _ hnone ↦ absurd hnone List.not_mem_nil

theorem callExits_of_get {call : ReadCall} (h : Located r r.dataPtr) (hbuffer : HasBuffer r)
    (hgets : GetsWithRoom r call) : ∀ exit ∈ callExits debug r call, exit.HasRoom := by
  have hnone : ∀ exit ∈ ([] : List ChunkExit), exit.HasRoom := fun _ hmem ↦ absurd hmem List.not_mem_nil
  cases call with
  | bytes n =>
    rw [callExits]
    split
    · exact requestExits_of_get (h.withDataPtr _) hbuffer hgets
    · exact hnone
  | peek n =>
    rw [callExits]
    split
    · exact requestExits_of_get h hbuffer hgets
    · exact hnone
  | skip n => exact hgets.elim
  | getBytes n =>
    have hle := h.le_dataEnd
    exact copyExits_of_get h hbuffer (by omega) hgets

theorem GetsWithRoom.of_moved {call : ReadCall} {r' : DataReader} (h : Moved r r') (hgets : GetsWithRoom r call) :
    GetsWithRoom r' call := by
  obtain ⟨_, _, _, _, _, _, _, _, rfl⟩ := h
  exact hgets

/-- As long as nothing is skipped and each request leaves a byte to spare, no assertion fails. -/
theorem assertionsHold_of_gets {payload : List UInt8} {calls : List ReadCall} (hconstructed : Constructed r payload)
    (hgets : ∀ call ∈ calls, GetsWithRoom r call) : AssertionsHold debug r calls := by
  have hlocated : Located r r.dataPtr := ⟨payload, 0, hconstructed.ready⟩
  clear hconstructed
  induction calls generalizing r with
  | nil => rfl
  | cons call calls ih =>
    have hfirst := hgets call (by simp)
    have hbuffer : HasBuffer r := hfirst.fits.hasBuffer
    have hspec : Decides AboutRoom _ (run debug call) _ Disconnected r := run_spec hlocated hbuffer hfirst.fits
    have hrun := hspec.1 (callExits_of_get hlocated hbuffer hfirst)
    rw [AssertionsHold, failedAssertion]
    cases hresult : run debug call r with
    | ok data r' =>
      rw [wp_ok hresult] at hrun
      exact ih (fun other hother ↦ (hgets other (by simp [hother])).of_moved hrun.1) hrun.2
    | error failure r' =>
      rw [wp_error hresult] at hrun
      cases hrun
      rfl

end DxApi.Reader.Checked
