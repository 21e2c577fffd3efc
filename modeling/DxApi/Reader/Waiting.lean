import DxApi.Reader.Frame

/-!
# Waiting for the stream

`InputStream::read` waits until it has `minSize` bytes. On a stream that carries no more than what its
peer has sent so far, `read` throws in place of waiting, so the waits of a run show as its failures on
all the ways in which the stream can be cut off. A chunked reader never waits for a byte behind the
last one that is requested: it looks for a chunk header only where more payload is needed, and asks for
one byte behind the least header that what it has seen can be the start of.
-/

namespace DxApi.Reader

open Exec ByteMemory

variable {head : List UInt8} {chunks : List Chunk} {r : DataReader}

/-! ## Asking for bytes -/

/-- In a run of the program, when `received` bytes of the stream have come, a `read` asks for `minSize`
or more: the stream is cut off one byte short of them, and `read` fails with all the others left. -/
def Asks {α : Type} (program : ReaderM α) (r : DataReader) (received minSize : ℕ) : Prop :=
  ∃ left schedule r', minSize = left + 1 ∧ received + left ≤ r.s.wire.length ∧
    program { r with s := ⟨r.s.wire.take (received + left), schedule⟩ } = .error .disconnected r' ∧
    r'.s.wire.length = left

theorem read_disconnected {dest minSize maxSize : ℤ} {r' : DataReader} (h : minSize ≤ maxSize) :
    read dest minSize maxSize r = .error .disconnected r' ↔ r.s.wire.length < minSize ∧ r = r' := by
  have hroom : ¬ maxSize < minSize := not_lt.mpr h
  change (if maxSize < minSize then throw .requestTooBig else if (r.s.wire.length : ℤ) < minSize then
    throw .disconnected else _ : ReaderM ℤ) r = _ ↔ _
  rw [if_neg hroom]
  by_cases hshort : (r.s.wire.length : ℤ) < minSize
  · rw [if_pos hshort]
    constructor
    · intro hthrows
      cases hthrows
      exact ⟨hshort, rfl⟩
    · rintro ⟨-, rfl⟩
      rfl
  · rw [if_neg hshort]
    refine ⟨fun habs ↦ ?_, fun hless ↦ absurd hless.1 hshort⟩
    cases habs

/-- A `read` asks for what it is passed, before it has received anything. -/
theorem asks_read {dest maxSize : ℤ} {size received minSize : ℕ} (hmax : size ≤ maxSize) :
    Asks (read dest size maxSize) r received minSize ↔
      received = 0 ∧ 0 < minSize ∧ minSize ≤ size ∧ minSize ≤ r.s.wire.length + 1 := by
  simp only [Asks, read_disconnected hmax, List.length_take]
  constructor
  · rintro ⟨left, schedule, r', rfl, hle, ⟨hshort, rfl⟩, hleft⟩
    simp only [List.length_take] at hleft
    omega
  · rintro ⟨rfl, hpos, hsize, hle⟩
    obtain ⟨left, rfl⟩ := Nat.exists_eq_add_of_le' hpos
    refine ⟨left, [], _, rfl, by omega, ⟨by omega, rfl⟩, ?_⟩
    simp only [List.length_take]
    omega

/-! ## The bytes that a request needs -/

theorem reach_mono {remaining size size' : ℤ} (h : size ≤ size') :
    reach remaining chunks size ≤ reach remaining chunks size' := by
  induction chunks generalizing remaining size size' with
  | nil => exact h
  | cons chunk chunks ih =>
    have hle := @le_reach chunk.data.length chunks (size' - remaining)
    have hrest := @ih chunk.data.length (size - remaining) (size' - remaining) (by omega)
    simp only [reach]
    split <;> split <;> omega

theorem Reaches.mono {later : List UInt8} {size size' : ℤ} (h : Reaches head chunks later size')
    (hle : size ≤ size') : Reaches head chunks later size := by
  have hmono := @reach_mono chunks head.length size size' hle
  unfold Reaches at h ⊢
  omega

/-- A chunked reader at `p`, `position` bytes into the payload of the data that was ahead when it was
constructed, `head` and then `chunks`, of which `unsent` has not been sent. What it removed of the data
it had received. -/
structure Live (head : List UInt8) (chunks : List Chunk) (unsent : List UInt8) (r : DataReader) (p : ℤ)
    (position : ℕ) : Prop where
  dataEnd_eq : r.dataEnd = min r.streamDataEnd r.chunkEnd
  ahead : ∃ head' chunks', r.chunkEnd = p + head'.length ∧ Underway r p head' chunks' unsent ∧
    head' ++ payloadOf chunks' = (head ++ payloadOf chunks).drop position ∧
    ∀ (later : List UInt8) (n : ℕ), later.length ≤ r.s.wire.length + unsent.length →
      Reaches head chunks later (position + n : ℕ) → Reaches head' chunks' later n

variable {unsent : List UInt8} {p size : ℤ} {position : ℕ}

theorem Live.le_dataEnd (h : Live head chunks unsent r p position) : p ≤ r.dataEnd := by
  obtain ⟨head', chunks', hend, hunderway, -⟩ := h.ahead
  have hle := hunderway.le_streamDataEnd
  rw [h.dataEnd_eq]
  omega

theorem Live.withDataPtr (h : Live head chunks unsent r p position) (dataPtr : ℤ) :
    Live head chunks unsent { r with dataPtr := dataPtr } p position := by
  obtain ⟨head', chunks', hend, ⟨raw, ⟨hstart, hstop, hend', hslice⟩, hraw⟩, hpayload, hreaches⟩ := h.ahead
  exact ⟨h.dataEnd_eq, head', chunks', hend, ⟨raw, ⟨hstart, hstop, hend', hslice⟩, hraw⟩, hpayload, hreaches⟩

/-- Inside the buffered data the position moves and nothing else does. -/
theorem Live.advance (h : Live head chunks unsent r p position) {count : ℕ} (hle : p + count ≤ r.dataEnd) :
    Live head chunks unsent r (p + count) (position + count) := by
  obtain ⟨head', chunks', hend, ⟨raw, hholds, hraw⟩, hpayload, hreaches⟩ := h.ahead
  have hdataEnd := h.dataEnd_eq
  have hlength := hholds.length_eq
  have hcount : count ≤ head'.length := by omega
  refine ⟨h.dataEnd_eq, head'.drop count, chunks', ?_, ?_, ?_, fun later n hlater hreach ↦ ?_⟩
  · rw [List.length_drop]
    omega
  · exact ⟨_, hholds.advance count (by omega), drop_sent hraw (by omega) hcount⟩
  · rw [← List.drop_append_of_le_length hcount, hpayload, List.drop_drop]
  · rw [Nat.add_assoc] at hreach
    have hold := hreaches later (count + n) hlater hreach
    have hiff := (@continues_drop head' chunks' (count + n : ℕ) count hcount).reaches_iff later _ le_rfl
    rw [Nat.cast_add, add_sub_cancel_left] at hiff
    exact hiff.mpr hold

/-- Buffered data is the payload. -/
theorem Live.bytes_eq (h : Live head chunks unsent r p position) {count : ℕ} (hle : p + count ≤ r.dataEnd) :
    ByteMemory.bytes r.mem p count = ((head ++ payloadOf chunks).drop position).take count := by
  obtain ⟨head', chunks', hend, ⟨raw, hholds, hraw⟩, hpayload, -⟩ := h.ahead
  have hdataEnd := h.dataEnd_eq
  have hlength := hholds.length_eq
  have hcount : count ≤ head'.length := by omega
  calc ByteMemory.bytes r.mem p count
      = raw.take count := hholds.bytes_eq (by omega)
    _ = (head' ++ wireOf chunks').take count := by
      rw [← hraw, List.take_append_of_le_length (by omega)]
    _ = (head' ++ payloadOf chunks').take count := by
      rw [List.take_append_of_le_length hcount, List.take_append_of_le_length hcount]
    _ = ((head ++ payloadOf chunks).drop position).take count := by rw [hpayload]

/-! ## One request -/

theorem hasRoom_httpChunked {isSkipping : Bool} :
    HasRoom .httpChunked isSkipping size r ↔ Fits isSkipping size r := by
  have hchunked : ReaderClass.httpChunked.isChunked = true := rfl
  rw [HasRoom, contiguous, if_pos hchunked, Fits]

/-- A run leaves no more of the stream than there was. -/
theorem wire_le {α : Type} {program : ReaderM α}
    (h : ∀ buffer k, Preserves (Unsent buffer k) program) :
    wp program (fun _ r' ↦ r'.s.wire.length ≤ r.s.wire.length) (fun _ _ ↦ True) r := by
  have hless := h (r.bufferStart, r.bufferEnd) (r.s.wire.length + 1) r ⟨Nat.lt_succ_self _, rfl⟩
  exact wp_mono hless (fun _ _ hr ↦ Nat.lt_succ_iff.mp hr.1) (fun _ _ _ ↦ trivial)

/-- A get returns as soon as its last byte has been sent. -/
theorem Live.get (h : Live head chunks unsent r p position) {n : ℕ} (hn : 0 < n) (hbuffer : HasBuffer r) :
    wp (getVirtual .httpChunked p n)
      (fun p' r' ↦ Moved r r' ∧ Live head chunks unsent r' p' position ∧ p' + n ≤ r'.dataEnd)
      (fun _ _ ↦ ¬ Reaches head chunks unsent (position + n : ℕ) ∨ ¬ HasRoom .httpChunked false n r) r := by
  obtain ⟨head', chunks', hend, hunderway, hpayload, hreaches⟩ := h.ahead
  have hpos : (0 : ℤ) < n := by omega
  have hspec := @getOrSkipChunked_underway head' chunks' unsent r p n false hunderway hend hpos hbuffer
  refine wp_mono (wp_and hspec (wire_le fun _ _ ↦ getVirtual_unsent .httpChunked p n)) ?_ ?_
  · rintro p' r' ⟨⟨hrelocated, hdataEnd, -, hget, head₁, chunks₁, hend₁, hunderway₁, -, hgoes⟩, hwire⟩
    have hcount := hget rfl
    simp only [Bool.false_eq_true, if_false] at hgoes
    refine ⟨hrelocated.moved, ⟨hdataEnd, head₁, chunks₁, hend₁, hunderway₁, ?_, ?_⟩, hcount⟩
    · rw [hgoes.payload_eq, hpayload, List.drop_zero]
    · intro later m hlater hreach
      by_cases hbeyond : (n : ℤ) ≤ m
      · have hiff := hgoes.reaches_iff later m hbeyond
        rw [Nat.cast_zero, sub_zero] at hiff
        exact hiff.mpr (hreaches later m (by omega) hreach)
      · -- what was asked for has been received
        have hlength := hunderway₁.length_eq
        rw [Reaches, reach_of_le (by omega)]
        omega
  · rintro _ _ ⟨hshort | hsmall, -⟩
    · exact .inl fun hreach ↦ hshort (hreaches unsent n (by omega) hreach)
    · exact .inr (mt hasRoom_httpChunked.mp hsmall)

/-- A skip returns as soon as the last byte it passes over has been sent. -/
theorem Live.pass (h : Live head chunks unsent r p position) {n : ℕ} (hn : 0 < n) (hbuffer : HasBuffer r) :
    wp (skipVirtual .httpChunked p n)
      (fun _ r' ↦ Moved r r' ∧ Live head chunks unsent r' r'.dataPtr (position + n))
      (fun _ _ ↦ ¬ Reaches head chunks unsent (position + n : ℕ) ∨ ¬ HasRoom .httpChunked true n r) r := by
  obtain ⟨head', chunks', hend, hunderway, hpayload, hreaches⟩ := h.ahead
  have hpos : (0 : ℤ) < n := by omega
  have hspec := @getOrSkipChunked_underway head' chunks' unsent r p n true hunderway hend hpos hbuffer
  simp only [skipVirtual, wp_bind, wp_pure]
  have hless := @wire_le r ℤ (getOrSkipChunked true p n) fun _ _ ↦ getOrSkipChunked_unsent true p n
  refine wp_mono (wp_and hspec hless) ?_ ?_
  · rintro p' r' ⟨⟨hrelocated, hdataEnd, hskip, -, head₁, chunks₁, hend₁, hunderway₁, -, hgoes⟩, hwire⟩
    simp only [if_true, Int.toNat_natCast] at hgoes
    rw [hskip rfl] at hend₁ hunderway₁
    refine ⟨hrelocated.moved, hdataEnd, head₁, chunks₁, hend₁, hunderway₁, ?_, ?_⟩
    · rw [hgoes.payload_eq, hpayload, List.drop_drop]
    · intro later m hlater hreach
      rw [Nat.add_assoc] at hreach
      have hiff := hgoes.reaches_iff later (n + m : ℕ) (by omega)
      rw [Nat.cast_add, add_sub_cancel_left] at hiff
      exact hiff.mpr (hreaches later (n + m) (by omega) hreach)
  · rintro _ _ ⟨hshort | hsmall, -⟩
    · exact .inl fun hreach ↦ hshort (hreaches unsent n (by omega) hreach)
    · exact .inr (mt hasRoom_httpChunked.mp hsmall)

theorem Live.copyBuffered {fuel n : ℕ} (h : Live head chunks unsent r p position) (hbuffer : HasBuffer r)
    (hfuel : 0 < fuel) (henough : (n : ℤ) + 1 ≤ fuel + min (r.dataEnd - p) 1) :
    wp (copyBuffered .httpChunked fuel p n)
      (fun copied r' ↦ Moved r r' ∧ Live head chunks unsent r' r'.dataPtr (position + n) ∧
        copied = ((head ++ payloadOf chunks).drop position).take n)
      (fun _ _ ↦ ¬ Reaches head chunks unsent (position + n : ℕ) ∨ ¬ HasRoom .httpChunked false 1 r) r := by
  induction fuel generalizing r p position n with
  | zero => omega
  | succ fuel ih =>
    have hle := h.le_dataEnd
    simp only [Reader.copyBuffered, wp_bind, wp_get, wp_ite, wp_set, wp_pure, not_lt]
    constructor
    · intro hshort
      obtain ⟨count, hcount⟩ : ∃ count : ℕ, r.dataEnd - p = count := ⟨(r.dataEnd - p).toNat, by omega⟩
      have hend : p + (count : ℤ) ≤ r.dataEnd := by omega
      rw [hcount] at hshort henough ⊢
      rw [Int.toNat_natCast, h.bytes_eq hend]
      have hone := (h.advance hend).get one_pos hbuffer
      refine wp_mono hone ?_ ?_
      · rintro p' r' ⟨hmoved, hlive, hp'⟩
        refine wp_mono (ih (n := n - count) hlive (hmoved.hasBuffer.mpr hbuffer) (by omega) (by omega)) ?_ ?_
        · rintro copied r'' ⟨hmoved', hlive', hcopied⟩
          have htotal : position + count + (n - count) = position + n := by omega
          have hsplit : n = count + (n - count) := by omega
          rw [htotal] at hlive'
          refine ⟨hmoved.trans hmoved', hlive', ?_⟩
          rw [hcopied, ← List.drop_drop]
          conv_rhs => rw [hsplit]
          exact List.take_add.symm
        · rintro _ _ (hunsent | hsmall)
          · exact .inl fun hreach ↦ hunsent (hreach.mono (by omega))
          · exact .inr fun hroom ↦ hsmall (hmoved.hasRoom.mpr hroom)
      · rintro _ _ (hunsent | hsmall)
        · exact .inl fun hreach ↦ hunsent (hreach.mono (by omega))
        · exact .inr hsmall
    · intro hbuffered
      have hend : p + (n : ℤ) ≤ r.dataEnd := by omega
      exact ⟨⟨_, _, _, _, _, _, _, _, rfl⟩, (h.advance hend).withDataPtr _, h.bytes_eq hend⟩

/-- A request returns the payload it asks for as soon as its last byte has been sent. -/
theorem Live.run (h : Live head chunks unsent r r.dataPtr position) (hbuffer : HasBuffer r) (call : ReadCall) :
    wp (call.run .httpChunked)
      (fun data r' ↦ Moved r r' ∧ Live head chunks unsent r' r'.dataPtr (position + call.consumed) ∧
        data = call.result ((head ++ payloadOf chunks).drop position))
      (fun _ _ ↦ ¬ Reaches head chunks unsent (position + call.size : ℕ) ∨ ¬ call.Fits .httpChunked r) r := by
  have hle := h.le_dataEnd
  cases call with
  | bytes n =>
    simp only [ReadCall.run, bytes, wp_bind, wp_get, wp_set, wp_ite, wp_pure, not_lt]
    constructor
    · intro hbarrier
      simp only [onReadBarrier, wp_bind, wp_modify, wp_pure]
      refine wp_mono ((h.withDataPtr _).get (by omega) hbuffer) ?_ (fun _ _ ↦ id)
      rintro p' r' ⟨hmoved, hlive, hcount⟩
      refine ⟨?_, (hlive.advance hcount).withDataPtr _, hlive.bytes_eq hcount⟩
      exact ((moved_dataPtr r _).trans hmoved).trans (moved_dataPtr r' _)
    · intro hbuffered
      exact ⟨moved_dataPtr r _, (h.advance hbuffered).withDataPtr _, h.bytes_eq hbuffered⟩
  | peek n =>
    simp only [ReadCall.run, peek, wp_bind, wp_get, wp_ite, wp_pure, not_lt]
    constructor
    · intro hbarrier
      simp only [onPeekBarrier, wp_bind, wp_modify, wp_pure]
      refine wp_mono (h.get (by omega) hbuffer) ?_ (fun _ _ ↦ id)
      rintro p' r' ⟨hmoved, hlive, hcount⟩
      exact ⟨hmoved.trans (moved_dataPtr r' _), hlive.withDataPtr _, hlive.bytes_eq hcount⟩
    · intro hbuffered
      exact ⟨Moved.refl r, h, h.bytes_eq hbuffered⟩
  | skip n =>
    simp only [ReadCall.run, skip, wp_bind, wp_get, wp_set, wp_ite, wp_pure, not_lt]
    constructor
    · intro hbarrier
      refine wp_mono ((h.withDataPtr _).pass (by omega) hbuffer) ?_ (fun _ _ ↦ id)
      rintro _ r' ⟨hmoved, hlive⟩
      exact ⟨(moved_dataPtr r _).trans hmoved, hlive, rfl⟩
    · intro hbuffered
      exact ⟨moved_dataPtr r _, (h.advance hbuffered).withDataPtr _, rfl⟩
  | getBytes n =>
    simp only [ReadCall.run, getBytes, wp_bind, wp_get]
    exact h.copyBuffered hbuffer (Nat.succ_pos n) (by push_cast; omega)

/-! ## All requests -/

/-- The calls return, one after another, and leave the reader `r'`. -/
inductive After : DataReader → List ReadCall → DataReader → Prop
  | nil (r : DataReader) : After r [] r
  | cons {r r₁ r₂ : DataReader} {call : ReadCall} {calls : List ReadCall} {data : List UInt8}
      (hcall : call.run .httpChunked r = .ok data r₁) (hcalls : After r₁ calls r₂) : After r (call :: calls) r₂

/-- How far calls move the logical position. -/
def consumed (calls : List ReadCall) : ℕ := (calls.map ReadCall.consumed).sum

theorem Live.after {calls : List ReadCall} {r' : DataReader} (hafter : After r calls r')
    (h : Live head chunks unsent r r.dataPtr position) (hbuffer : HasBuffer r) :
    Moved r r' ∧ Live head chunks unsent r' r'.dataPtr (position + consumed calls) := by
  induction hafter generalizing position with
  | nil r => exact ⟨Moved.refl r, h⟩
  | cons hcall _ ih =>
    obtain ⟨hmoved, hlive, -⟩ := (wp_ok hcall).mp (h.run hbuffer _)
    obtain ⟨hmoved', hlive'⟩ := ih hlive (hmoved.hasBuffer.mpr hbuffer)
    rw [Nat.add_assoc] at hlive'
    exact ⟨hmoved.trans hmoved', hlive'⟩

/-- The end of the stream that a reader has not received may as well not have been sent. -/
theorem Live.cut {sent later : List UInt8} (h : Live head chunks [] r p position)
    (hwire : r.s.wire = sent ++ later) (schedule : List ℕ) :
    Live head chunks later { r with s := ⟨sent, schedule⟩ } p position := by
  obtain ⟨head', chunks', hend, ⟨raw, ⟨hstart, hstop, hend', hslice⟩, hraw⟩, hpayload, hreaches⟩ := h.ahead
  refine ⟨h.dataEnd_eq, head', chunks', hend, ⟨_, ⟨hstart, hstop, hend', rfl⟩, ?_⟩, hpayload, ?_⟩
  · rw [List.append_assoc, ← hwire, hslice, ← hraw, List.append_nil]
  · rw [hwire, List.length_append] at hreaches
    exact fun other n hother ↦ hreaches other n (by simpa using hother)

theorem Constructed.live {payload : List UInt8} (h : Constructed r payload)
    (hend : r.chunkEnd = r.dataPtr + head.length) (hdata : Underway r r.dataPtr head chunks []) :
    Live head chunks [] r r.dataPtr 0 ∧ head ++ payloadOf chunks = payload := by
  have hready := h.ready
  obtain ⟨raw, hholds, hraw⟩ := hdata
  constructor
  · refine ⟨hready.dataEnd_eq, head, chunks, hend, ⟨raw, hholds, hraw⟩, rfl, fun later n _ hreach ↦ ?_⟩
    rwa [Nat.zero_add] at hreach
  · rw [List.append_nil] at hraw
    have hat : At .httpChunked r r.dataPtr (head ++ payloadOf chunks) :=
      (at_chunked rfl).mpr ⟨raw, hholds, head, chunks, by omega, hraw, rfl⟩
    exact hat.unique hready.at_rest

/-- How many bytes of the stream, up to the one that carries the last of the first `size` bytes of the
payload, `r` has not received. -/
def outstanding (head : List UInt8) (chunks : List Chunk) (r : DataReader) (size : ℕ) : ℤ :=
  reach head.length chunks size - ((head ++ wireOf chunks).length - r.s.wire.length)

theorem reaches_iff_outstanding {sent later : List UInt8} {n : ℕ} (hwire : r.s.wire = sent ++ later) :
    Reaches head chunks later n ↔ outstanding head chunks r n ≤ sent.length := by
  simp only [Reaches, outstanding, hwire, List.length_append, Nat.cast_add]
  constructor <;> intro hle <;> omega

/-- After any calls on a reader over `head` and `chunks`, a request that ends within the payload asks
the stream for no byte behind the last one requested; so it returns as soon as that one has been sent,
however the bytes sent are delivered. -/
theorem never_waits {payload : List UInt8} {calls : List ReadCall} {call : ReadCall} {r' : DataReader}
    (hconstructed : Constructed r payload) (hend : r.chunkEnd = r.dataPtr + head.length)
    (hdata : Underway r r.dataPtr head chunks []) (hafter : After r calls r')
    (hfits : call.Fits .httpChunked r) (hinside : consumed calls + call.size ≤ payload.length) :
    (∀ received minSize : ℕ, Asks (call.run .httpChunked) r' received minSize →
      received + minSize ≤ outstanding head chunks r' (consumed calls + call.size)) ∧
    ∀ (sent unsent : List UInt8) (schedule : List ℕ), r'.s.wire = sent ++ unsent →
      outstanding head chunks r' (consumed calls + call.size) ≤ sent.length →
      ∃ r'', call.run .httpChunked { r' with s := ⟨sent, schedule⟩ } =
        .ok (call.result (payload.drop (consumed calls))) r'' := by
  obtain ⟨hlive, rfl⟩ := hconstructed.live hend hdata
  have hbuffer := hfits.hasBuffer
  obtain ⟨hmoved, hlive'⟩ := hlive.after hafter hbuffer
  rw [Nat.zero_add] at hlive'
  have hreturns : ∀ (sent unsent : List UInt8) (schedule : List ℕ), r'.s.wire = sent ++ unsent →
      outstanding head chunks r' (consumed calls + call.size) ≤ sent.length →
      ∃ r'', call.run .httpChunked { r' with s := ⟨sent, schedule⟩ } =
        .ok (call.result ((head ++ payloadOf chunks).drop (consumed calls))) r'' := by
    intro sent unsent schedule hwire hsent
    have hreach := (reaches_iff_outstanding hwire).mpr hsent
    have hmoved' : Moved r' { r' with s := ⟨sent, schedule⟩ } := ⟨_, _, _, _, _, _, _, _, rfl⟩
    have hfits' := ReadCall.fits_of_moved (hmoved.trans hmoved') hfits
    have hrun := (hlive'.cut hwire schedule).run ((hmoved.trans hmoved').hasBuffer.mpr hbuffer) call
    simp only [hreach, hfits', not_true, or_self] at hrun
    obtain ⟨data, r'', hok, -, -, rfl⟩ := exists_ok_of_wp hrun
    exact ⟨r'', hok⟩
  refine ⟨?_, hreturns⟩
  rintro received minSize ⟨left, schedule, r'', rfl, hle, hrun, -⟩
  by_contra hbeyond
  -- cut off one byte short of what is asked for, the stream still has all that is needed
  have hcut : (r'.s.wire.take (received + left)).length = received + left := List.length_take_of_le hle
  obtain ⟨r₁, hok⟩ := hreturns _ _ schedule (List.take_append_drop (received + left) r'.s.wire).symm
    (by push_cast at hbeyond; omega)
  rw [hok] at hrun
  cases hrun

/-- A call for four bytes across a header, after a skip, with the two bytes behind them still missing. -/
theorem never_waits_across_chunks :
    let first : Chunk := ⟨[0x33], [1, 2, 3], by decide, by decide, by decide⟩
    let second : Chunk := ⟨[0x30, 0x34], [4, 5, 6, 7], by decide, by decide, by decide⟩
    let raw : DataReader := ⟨fun _ ↦ 0, 0, 0, 0, 0, 0, 0, ⟨[], []⟩, 0, 0, fun _ ↦ 0, fun _ ↦ false, 0⟩
    ∃ r r', r = constructChunked raw 100 40 0 ⟨wireOf [first, second], [1, 0, 9]⟩ ∧
      After r [.skip 1] r' ∧
      ((∀ received minSize : ℕ, Asks ((ReadCall.bytes 4).run .httpChunked) r' received minSize →
        received + minSize ≤ outstanding [] [first, second] r' 5) ∧
      ∀ (sent unsent : List UInt8) (schedule : List ℕ), r'.s.wire = sent ++ unsent →
        outstanding [] [first, second] r' 5 ≤ sent.length →
        ∃ r'', (ReadCall.bytes 4).run .httpChunked { r' with s := ⟨sent, schedule⟩ } =
          .ok [2, 3, 4, 5] r'') := by
  intro first second raw
  obtain ⟨r, hr⟩ : ∃ r, r = constructChunked raw 100 40 0 ⟨wireOf [first, second], [1, 0, 9]⟩ := ⟨_, rfl⟩
  have hconstructed : Constructed r [1, 2, 3, 4, 5, 6, 7] := by
    rw [hr]
    exact .buffered raw 100 40 0 [first, second] [1, 0, 9] (by decide)
  have hend : r.chunkEnd = r.dataPtr + ([] : List UInt8).length := by
    rw [hr]
    rfl
  have hdata : Underway r r.dataPtr [] [first, second] [] := by
    rw [hr]
    exact ⟨wireOf [first, second], ⟨by decide, by decide, by decide, rfl⟩, by simp⟩
  have hskip : (ReadCall.skip 1).Fits .httpChunked r := by
    rw [hr]
    decide
  have hbytes : (ReadCall.bytes 4).Fits .httpChunked r := by
    rw [hr]
    decide
  have hlive := (hconstructed.live hend hdata).1
  have hreach : Reaches [] [first, second] [] 1 := reaches_nil (by decide)
  have hrun := hlive.run hskip.hasBuffer (.skip 1)
  simp only [ReadCall.size, Nat.zero_add, Nat.cast_one, hreach, hskip, not_true, or_self] at hrun
  obtain ⟨data, r', hok, -⟩ := exists_ok_of_wp hrun
  have hafter : After r [.skip 1] r' := .cons hok (.nil r')
  have hsize : consumed [.skip 1] + (ReadCall.bytes 4).size = 5 := rfl
  have hresult : (ReadCall.bytes 4).result ([1, 2, 3, 4, 5, 6, 7].drop (consumed [.skip 1])) = [2, 3, 4, 5] := rfl
  have hwaits := never_waits hconstructed hend hdata hafter hbytes (by decide)
  rw [hsize, hresult] at hwaits
  exact ⟨r, r', hr, hafter, hwaits⟩

end DxApi.Reader
