import DxApi.Reader.ChunkHeader
import DxApi.Reader.Trips
import DxApi.Reader.Waiting

/-!
# The body of a response

A response that is not read as messages is collected into a string: as many bytes as were announced, all
bytes up to the end of the connection, or the data of the chunks up to the empty one. The chunks are read
byte after byte, by another decoder than the one of the cursors: it collects the digits of a size, passes
over what comes after a semicolon, and has the size parsed by `strtoul`. On the same stream both decoders
give the same bytes.
-/

namespace DxApi.Net

open Exec Reader

/-! ## The source -/

/-- The test for a hexadecimal digit, by unsigned differences. -/
def isHexDigit (ch : UInt8) : Bool :=
  ch.toUInt32 - 0x30 < 10 || ch.toUInt32 - 0x61 < 6 || ch.toUInt32 - 0x41 < 6

/-- The loop that passes over a chunk extension. -/
def skipExtension (cls : ReaderClass) : ℕ → ReaderM Unit
  | 0 => throw .diverged
  | fuel + 1 => do
    let ch ← getByte cls
    if ch = 0x0D then return () else skipExtension cls fuel

/-- The loop that collects the digits of a chunk size; nothing if the line goes on with something else. -/
def readSizeText (cls : ReaderClass) : ℕ → List UInt8 → ReaderM (Option (List UInt8))
  | 0, _ => throw .diverged
  | fuel + 1, sizeText => do
    let ch := UInt8.ofNat (← getByte cls)
    if isHexDigit ch then
      readSizeText cls fuel (sizeText ++ [ch])
    else if ch = 0x3B then do
      skipExtension cls fuel
      return some sizeText
    else if ch = 0x0D then
      return some sizeText
    else
      return none

/-- `strtoul` with the base 16 on a text of hexadecimal digits. -/
def strtoul (sizeText : List UInt8) : ℕ := min ((numberFrom 0 sizeText).getD 0) (2 ^ 64 - 1)

/-- `responseBody.resize`, up to the bytes that are assigned behind it; nothing for the exception of a size
that is too big. -/
def resize (responseBody : List UInt8) (size : ℤ) : Option (List UInt8) :=
  if size < 0 then none else some (responseBody.take size.toNat)

/-- `count` calls of `getByte`. -/
def readBytes (cls : ReaderClass) : ℕ → ReaderM (List UInt8)
  | 0 => return []
  | count + 1 => do
    let ch := UInt8.ofNat (← getByte cls)
    return ch :: (← readBytes cls count)

/-- The loop over the chunks. -/
def readChunks (cls : ReaderClass) : ℕ → List UInt8 → ReaderM (Option (Bool × List UInt8))
  | 0, _ => throw .diverged
  | fuel + 1, responseBody => do
    match ← readSizeText cls (fuel + 1) [] with
    | none => return some (false, responseBody)
    | some sizeText =>
      if sizeText = [] then
        return some (false, responseBody)
      else
        let chunkSize := signed 8 (strtoul sizeText)
        if chunkSize = 0 then
          return some (true, responseBody)
        else do
          skip cls 1
          match resize responseBody (responseBody.length + chunkSize) with
          | none => return none
          | some resized =>
            let data ← readBytes cls chunkSize.toNat
            skip cls 2
            readChunks cls fuel (resized ++ data)

/-- The loop that ends with the connection. -/
def readToEnd (cls : ReaderClass) : ℕ → List UInt8 → ReaderM (List UInt8)
  | 0, _ => throw .diverged
  | fuel + 1, responseBody => do
    match ← attempt (getByte cls) with
    | .ok ch => readToEnd cls fuel (responseBody ++ [UInt8.ofNat ch])
    | .error .disconnected => return responseBody
    | .error error => throw error

/-- `readResponseBody`: what it returns and the body; nothing if the string throws. -/
def readResponseBody (cls : ReaderClass) (contentLength : ℤ) : ReaderM (Option (Bool × List UInt8)) := do
  if 0 < contentLength then
    return some (true, ← readBytes cls contentLength.toNat)
  else if contentLength = 0 then
    let r ← get
    return some (true, ← readToEnd cls (unread r r.dataPtr + 1) [])
  else
    let r ← get
    readChunks cls (unread r r.dataPtr + 1) []

/-! ## The format -/

/-- A chunk with any number of digits, and with extensions behind a semicolon if there are any. -/
structure BodyChunk where
  digits : List UInt8
  extension : List UInt8
  data : List UInt8
  digits_ne_nil : digits ≠ []
  digits_value : numberFrom 0 digits = some data.length
  data_length_le : data.length ≤ chunkSizeMax
  extension_eq : extension = [] ∨ ∃ text, extension = 0x3B :: text ∧ 0x0D ∉ text

/-- The line of a chunk up to its `CR`. -/
def BodyChunk.line (chunk : BodyChunk) : List UInt8 := chunk.digits ++ (chunk.extension ++ [0x0D])

/-- A body up to the `CR` in the line of its last chunk. -/
def bodyWire (chunks : List BodyChunk) (last : BodyChunk) : List UInt8 :=
  (chunks.flatMap fun chunk ↦ chunk.line ++ (0x0A :: (chunk.data ++ [0x0D, 0x0A]))) ++ last.line

/-- The body itself. -/
def bodyOf (chunks : List BodyChunk) : List UInt8 := chunks.flatMap BodyChunk.data

variable {cls : ReaderClass} {chunks : List BodyChunk} {last : BodyChunk} {fuel : ℕ} {sizeText responseBody : List UInt8}

theorem isHexDigit_iff (ch : UInt8) : isHexDigit ch = (digitValue ch).isSome := by
  have hch := ch.toNat_lt
  simp only [isHexDigit, digitValue, UInt32.lt_iff_toNat_lt, UInt8.le_iff_toNat_le, UInt32.toNat_sub,
    UInt8.toNat_toUInt32]
  split_ifs <;> simp_all <;> omega

theorem decodes_skipExtension {text : List UInt8} (htext : 0x0D ∉ text) (hfuel : text.length < fuel) :
    Decodes cls (skipExtension cls fuel) (text ++ [0x0D]) () := by
  induction text generalizing fuel with
  | nil =>
    obtain ⟨fuel, rfl⟩ := Nat.exists_eq_succ_of_ne_zero (Nat.ne_of_gt hfuel)
    apply decodes_header
    rw [if_pos (by decide)]
    exact decodes_pure ()
  | cons ch text ih =>
    obtain ⟨fuel, rfl⟩ := Nat.exists_eq_succ_of_ne_zero (Nat.ne_of_gt (Nat.zero_lt_of_lt hfuel))
    rw [List.mem_cons, not_or] at htext
    have hother : ¬ ch.toNat = 0x0D := fun hcr ↦ htext.1 (UInt8.toNat_inj.mp hcr).symm
    apply decodes_header
    rw [if_neg hother]
    exact ih htext.2 (Nat.lt_of_succ_lt_succ hfuel)

theorem isHexDigit_of_numberFrom {digits : List UInt8} {value number : ℕ}
    (h : numberFrom value digits = some number) : ∀ digit ∈ digits, isHexDigit digit = true := by
  induction digits generalizing value with
  | nil => exact fun _ hnone ↦ absurd hnone List.not_mem_nil
  | cons digit digits ih =>
    obtain ⟨t, ht, hrest⟩ := Option.bind_eq_some_iff.mp h
    intro other hother
    rcases List.mem_cons.mp hother with rfl | htail
    · rw [isHexDigit_iff, ht]
      rfl
    · exact ih hrest other htail

/-- The line of a chunk gives the digits, whether or not extensions follow them. -/
theorem decodes_readSizeText {digits extension : List UInt8} (hdigits : ∀ digit ∈ digits, isHexDigit digit = true)
    (hextension : extension = [] ∨ ∃ text, extension = 0x3B :: text ∧ 0x0D ∉ text)
    (hfuel : digits.length + extension.length < fuel) :
    Decodes cls (readSizeText cls fuel sizeText) (digits ++ (extension ++ [0x0D])) (some (sizeText ++ digits)) := by
  obtain ⟨fuel, rfl⟩ := Nat.exists_eq_succ_of_ne_zero (Nat.ne_of_gt (Nat.zero_lt_of_lt hfuel))
  induction digits generalizing fuel sizeText with
  | nil =>
    rw [List.nil_append, List.append_nil]
    rcases hextension with rfl | ⟨text, rfl, htext⟩
    · apply decodes_header
      exact decodes_pure _
    · apply decodes_header
      rw [List.length_cons] at hfuel
      exact (decodes_skipExtension htext (by simp at hfuel; omega)).map fun _ ↦ some sizeText
  | cons digit digits ih =>
    rw [List.length_cons] at hfuel
    obtain ⟨fuel, rfl⟩ : ∃ fuel', fuel = fuel' + 1 := Nat.exists_eq_succ_of_ne_zero (by omega)
    apply decodes_header
    rw [UInt8.ofNat_toNat, if_pos (hdigits digit List.mem_cons_self)]
    have hrest := @ih (sizeText ++ [digit]) (fun other hother ↦ hdigits other (List.mem_cons_of_mem _ hother))
      fuel (by omega)
    rwa [List.append_assoc, List.singleton_append] at hrest

theorem decodes_readBytes (data : List UInt8) : Decodes cls (readBytes cls data.length) data data := by
  induction data with
  | nil => exact decodes_pure []
  | cons ch data ih =>
    apply decodes_header
    rw [UInt8.ofNat_toNat]
    exact ih.map (ch :: ·)

theorem signed_strtoul (chunk : BodyChunk) : signed 8 (strtoul chunk.digits) = chunk.data.length := by
  have hle := chunk.data_length_le
  unfold chunkSizeMax at hle
  have hvalue : strtoul chunk.digits = chunk.data.length := by
    rw [strtoul, chunk.digits_value, Option.getD_some]
    omega
  rw [hvalue, signed, if_pos (by omega)]

theorem bodyWire_cons (chunk : BodyChunk) (chunks : List BodyChunk) (last : BodyChunk) :
    bodyWire (chunk :: chunks) last =
      chunk.line ++ ([0x0A] ++ (chunk.data ++ ([0x0D, 0x0A] ++ bodyWire chunks last))) := by
  simp [bodyWire]

theorem BodyChunk.decodes_line (chunk : BodyChunk) (hfuel : chunk.line.length ≤ fuel) :
    Decodes cls (readSizeText cls fuel []) chunk.line (some chunk.digits) := by
  rw [BodyChunk.line] at hfuel
  simp only [List.length_append, List.length_singleton] at hfuel
  exact decodes_readSizeText (isHexDigit_of_numberFrom chunk.digits_value) chunk.extension_eq (by omega)

theorem decodes_readChunks (hdata : ∀ chunk ∈ chunks, chunk.data ≠ []) (hlast : last.data = [])
    (hfuel : (bodyWire chunks last).length < fuel) :
    Decodes cls (readChunks cls fuel responseBody) (bodyWire chunks last)
      (some (true, responseBody ++ bodyOf chunks)) := by
  obtain ⟨fuel, rfl⟩ := Nat.exists_eq_succ_of_ne_zero (Nat.ne_of_gt (Nat.zero_lt_of_lt hfuel))
  induction chunks generalizing fuel responseBody with
  | nil =>
    have hwire : bodyWire [] last = last.line ++ [] := (List.append_nil _).symm
    rw [hwire] at hfuel ⊢
    rw [List.append_nil] at hfuel
    apply (last.decodes_line hfuel.le).bind
    have hsize := signed_strtoul last
    rw [hlast] at hsize
    simp only [if_neg last.digits_ne_nil, hsize]
    rw [if_pos (by simp), bodyOf, List.flatMap_nil, List.append_nil]
    exact decodes_pure _
  | cons chunk chunks ih =>
    have hsize := signed_strtoul chunk
    have hne := hdata chunk List.mem_cons_self
    have hnonzero : ¬ (chunk.data.length : ℤ) = 0 := by
      rw [Int.natCast_eq_zero, List.length_eq_zero_iff]
      exact hne
    have hresize : resize responseBody (responseBody.length + chunk.data.length) = some responseBody := by
      rw [resize, if_neg (by omega), List.take_of_length_le (by omega)]
    rw [bodyWire_cons] at hfuel ⊢
    simp only [List.length_append, List.length_cons, List.length_nil] at hfuel
    obtain ⟨fuel, rfl⟩ : ∃ fuel', fuel = fuel' + 1 := Nat.exists_eq_succ_of_ne_zero (by omega)
    have hrest := @ih (responseBody ++ chunk.data) (fun other hother ↦ hdata other (List.mem_cons_of_mem _ hother))
      fuel (by omega)
    apply (chunk.decodes_line (by omega)).bind
    simp only [if_neg chunk.digits_ne_nil, hsize, if_neg hnonzero, hresize, Int.toNat_natCast]
    apply (decodes_skip [0x0A]).bind
    apply (decodes_readBytes chunk.data).bind
    apply (decodes_skip [0x0D, 0x0A]).bind
    rwa [bodyOf, List.flatMap_cons, ← List.append_assoc]

variable {r : DataReader} {rest : List UInt8}

/-- A chunked body is read up to the `CR` in the line of its last chunk, and returned. -/
theorem readResponseBody_spec (hdata : ∀ chunk ∈ chunks, chunk.data ≠ []) (hlast : last.data = [])
    (h : Ahead cls r (bodyWire chunks last ++ rest)) :
    wp (readResponseBody cls (-1)) (fun found r' ↦ found = some (true, bodyOf chunks) ∧ Ahead cls r' rest)
      (fun _ _ ↦ False) r := by
  have hfuel := h.length_le
  rw [List.length_append] at hfuel
  rw [readResponseBody, if_neg (by decide), if_neg (by decide), wp_bind, wp_get]
  exact h.decode (decodes_readChunks hdata hlast (by omega))

/-! ## The other decoder -/

/-- A chunk without extensions. -/
def BodyChunk.plain (chunk : Chunk) : BodyChunk where
  digits := chunk.digits
  extension := []
  data := chunk.data
  digits_ne_nil := chunk.digits_ne_nil
  digits_value := chunk.digits_value
  data_length_le := chunk.data_length_le
  extension_eq := .inl rfl

/-- A chunked reader right after its construction, with `stream` ahead behind the line break that ends the
header. -/
inductive Opened : DataReader → List UInt8 → Prop
  | buffered (raw : DataReader) (buffer : ℤ) (bufferSize : ℕ) (stream : List UInt8) (schedule : List ℕ) :
      Opened (constructChunked raw buffer bufferSize 0 ⟨0x0D :: 0x0A :: stream, schedule⟩) stream
  | afterHeader (other : DataReader) (hstart : other.bufferStart + 2 ≤ other.dataPtr)
      (hend : other.streamDataEnd ≤ other.bufferEnd) (hdata : other.dataPtr ≤ other.streamDataEnd) :
      Opened (constructFromHeaderReader other)
        (ByteMemory.slice other.mem other.dataPtr other.streamDataEnd ++ other.s.wire)

variable {all more plain : List Chunk} {plainLast : Chunk} {stream unsent payload beyond : List UInt8} {position : ℕ}
  {calls : List ReadCall}

theorem Opened.live (h : Opened r stream) (hstream : 0x0D :: 0x0A :: (stream ++ unsent) = wireOf all) :
    Live [] all unsent r r.dataPtr 0 := by
  have hreaches : ∀ (later : List UInt8) (n : ℕ), Reaches [] all later (0 + n : ℕ) → Reaches [] all later n := by
    intro later n hreach
    rwa [Nat.zero_add] at hreach
  cases h with
  | buffered raw buffer bufferSize stream schedule =>
    refine ⟨?_, [], all, ?_, ⟨0x0D :: 0x0A :: stream, ⟨le_rfl, ?_, ?_, ?_⟩, hstream⟩, rfl, fun later n _ ↦ hreaches later n⟩
    · simp [constructChunked, constructBase]
    · simp [constructChunked, constructBase]
    · simp [constructChunked, constructBase]
    · simp [constructChunked, constructBase]
    · simp [constructChunked, constructBase]
  | afterHeader other hstart hend hdata =>
    refine ⟨?_, [], all, ?_, ⟨_, holds_constructFromHeaderReader hstart hend hdata, hstream⟩, rfl,
      fun later n _ ↦ hreaches later n⟩
    · simp only [constructFromHeaderReader]
      omega
    · simp [constructFromHeaderReader]

/-- What lies behind the requested bytes does not count. -/
theorem reach_append {remaining size : ℤ} (h : size ≤ remaining + (payloadOf all).length) :
    reach remaining (all ++ more) size = reach remaining all size := by
  induction all generalizing remaining size with
  | nil =>
    rw [payloadOf_nil, List.length_nil, Nat.cast_zero, add_zero] at h
    rw [List.nil_append, reach_of_le h, reach_of_le h]
  | cons chunk all ih =>
    rw [payloadOf_cons, List.length_append] at h
    push_cast at h
    rw [List.cons_append, reach, reach, ih (by omega)]

theorem reaches_append {n : ℕ} (hn : n ≤ (payloadOf all).length) (hunsent : unsent.length ≤ (wireOf more).length) :
    Reaches [] (all ++ more) unsent n := by
  have hall : Reaches [] all [] n := reaches_nil (by simpa using hn)
  have hwire : wireOf (all ++ more) = wireOf all ++ wireOf more := List.flatMap_append
  have hsize : (n : ℤ) ≤ (([] : List UInt8).length : ℤ) + (payloadOf all).length := by simpa using hn
  rw [Reaches, reach_append hsize, hwire]
  rw [Reaches] at hall
  simp only [List.length_append, List.nil_append, List.length_nil, Nat.cast_add, Nat.cast_zero, add_zero] at hall ⊢
  omega

/-- Calls that end within the payload give it, whatever is behind it. -/
theorem trace_of_live (h : Live [] all unsent r r.dataPtr position) (hpayload : payloadOf all = payload ++ beyond)
    (hreaches : ∀ n : ℕ, n ≤ payload.length → Reaches [] all unsent n) (hbuffer : HasBuffer r)
    (hfits : ∀ call ∈ calls, call.Fits .httpChunked r) (hinside : none ∉ expected payload position calls) :
    trace .httpChunked r calls = expected payload position calls := by
  induction calls generalizing r position with
  | nil => rfl
  | cons call calls ih =>
    rw [expected] at hinside ⊢
    by_cases hwithin : position + call.size ≤ payload.length
    · rw [if_pos hwithin] at hinside ⊢
      rw [List.mem_cons, not_or] at hinside
      have hreach := hreaches _ hwithin
      have hfit := hfits call List.mem_cons_self
      have hrun := h.run hbuffer call
      simp only [hreach, hfit, not_true, or_self] at hrun
      obtain ⟨data, r', hok, hmoved, hlive, hdata⟩ := exists_ok_of_wp hrun
      have hresult : call.result (([] ++ payloadOf all).drop position) = call.result (payload.drop position) := by
        rw [List.nil_append, hpayload, List.drop_append_of_le_length (by omega)]
        cases call with
        | skip n => rfl
        | bytes n | peek n | getBytes n =>
          simp only [ReadCall.size] at hwithin
          exact List.take_append_of_le_length (by rw [List.length_drop]; omega)
      simp only [trace, hok]
      rw [hdata, hresult, ih hlive (hmoved.hasBuffer.mpr hbuffer) (fun other hother ↦
        ReadCall.fits_of_moved hmoved (hfits other (List.mem_cons_of_mem _ hother))) hinside.2]
    · rw [if_neg hwithin] at hinside
      exact absurd (List.mem_singleton_self _) hinside

/-- Without extensions the body is what the chunked reader takes, with a line break at the end. -/
theorem bodyWire_plain (hlast : plainLast.data = []) :
    0x0D :: 0x0A :: (bodyWire (plain.map .plain) (.plain plainLast) ++ [0x0A, 0x0D, 0x0A]) =
      wireOf (plain ++ [plainLast]) ++ [0x0D, 0x0A] := by
  induction plain with
  | nil => simp [bodyWire, BodyChunk.line, BodyChunk.plain, Chunk.header, hlast]
  | cons chunk plain ih =>
    calc 0x0D :: 0x0A :: (bodyWire ((chunk :: plain).map .plain) (.plain plainLast) ++ [0x0A, 0x0D, 0x0A])
        = chunk.header ++ (chunk.data ++
            0x0D :: 0x0A :: (bodyWire (plain.map .plain) (.plain plainLast) ++ [0x0A, 0x0D, 0x0A])) := by
          simp [bodyWire_cons, BodyChunk.line, BodyChunk.plain, Chunk.header]
      _ = chunk.header ++ (chunk.data ++ (wireOf (plain ++ [plainLast]) ++ [0x0D, 0x0A])) := by rw [ih]
      _ = wireOf (chunk :: plain ++ [plainLast]) ++ [0x0D, 0x0A] := by simp

theorem bodyOf_plain (plain : List Chunk) : bodyOf (plain.map .plain) = payloadOf plain := by
  rw [bodyOf, payloadOf, List.flatMap_map]
  rfl

/-- A chunk of one byte, of which the line break at the end of a body may be the start. -/
def oneByte : Chunk := ⟨[0x31], [0], by decide, by decide, by decide⟩

/-- The chunked reader gives the body as well, to all calls that end within it. -/
theorem trace_eq_body (hlast : plainLast.data = [])
    (hopened : Opened r (bodyWire (plain.map .plain) (.plain plainLast) ++ [0x0A, 0x0D, 0x0A]))
    (hfits : ∀ call ∈ calls, call.Fits .httpChunked r) (hinside : none ∉ expected (bodyOf (plain.map .plain)) 0 calls) :
    trace .httpChunked r calls = expected (bodyOf (plain.map .plain)) 0 calls := by
  cases calls with
  | nil => rfl
  | cons call calls =>
    have hbuffer : HasBuffer r := (hfits call List.mem_cons_self).hasBuffer
    have hwire : wireOf (plain ++ [plainLast, oneByte]) = wireOf (plain ++ [plainLast]) ++ wireOf [oneByte] := by
      have hsplit : plain ++ [plainLast, oneByte] = plain ++ [plainLast] ++ [oneByte] := by simp
      rw [hsplit]
      exact List.flatMap_append
    have hstream : 0x0D :: 0x0A :: (bodyWire (plain.map .plain) (.plain plainLast) ++ [0x0A, 0x0D, 0x0A] ++
        [0x31, 0x0D, 0x0A, 0]) = wireOf (plain ++ [plainLast, oneByte]) := by
      rw [hwire, ← List.cons_append, ← List.cons_append, bodyWire_plain hlast, List.append_assoc]
      rfl
    have hpayload : payloadOf (plain ++ [plainLast, oneByte]) = bodyOf (plain.map .plain) ++ [0] := by
      rw [bodyOf_plain]
      simp [payloadOf, hlast, oneByte]
    have hunsent : ([0x31, 0x0D, 0x0A, 0] : List UInt8).length ≤ (wireOf [plainLast, oneByte]).length := by
      simp [oneByte, Chunk.header]
      omega
    apply trace_of_live (hopened.live hstream) hpayload _ hbuffer hfits hinside
    intro n hn
    rw [bodyOf_plain] at hn
    exact reaches_append hn hunsent

/-- Both decoders give the body of any chunks that are ended by the empty one: `readResponseBody` also
behind extensions, the chunked reader to every sequence of calls that end within the body. -/
theorem decoders_agree (hdata : ∀ chunk ∈ chunks, chunk.data ≠ []) (hlast : last.data = [])
    (h : Ahead cls r (bodyWire chunks last ++ rest)) :
    wp (readResponseBody cls (-1)) (fun found r' ↦ found = some (true, bodyOf chunks) ∧ Ahead cls r' rest)
        (fun _ _ ↦ False) r ∧
      ∀ (plain : List Chunk) (plainLast : Chunk) (reader : DataReader) (calls : List ReadCall),
        chunks = plain.map .plain → last = .plain plainLast →
        Opened reader (bodyWire chunks last ++ [0x0A, 0x0D, 0x0A]) →
        (∀ call ∈ calls, call.Fits .httpChunked reader) → none ∉ expected (bodyOf chunks) 0 calls →
        trace .httpChunked reader calls = expected (bodyOf chunks) 0 calls := by
  constructor
  · exact readResponseBody_spec hdata hlast h
  · rintro plain plainLast reader calls rfl rfl hopened hfits hinside
    exact trace_eq_body hlast hopened hfits hinside

/-- A body of two chunks for both, in small portions and with a read across the chunks for the second one. -/
theorem decoders_agree_twoChunks :
    let first : BodyChunk := .plain ⟨[0x30, 0x33], [1, 2, 3], by decide, by decide, by decide⟩
    let second : BodyChunk := .plain ⟨[0x41], [4, 5, 6, 7, 8, 9, 10, 11, 12, 13], by decide, by decide, by decide⟩
    let last : BodyChunk := .plain ⟨[0x30, 0x30], [], by decide, by decide, by decide⟩
    let raw : DataReader := ⟨fun _ ↦ 0, 0, 0, 0, 0, 0, 0, ⟨[], []⟩, 0, 0, fun _ ↦ 0, fun _ ↦ false, 0⟩
    let stream := bodyWire [first, second] last ++ [0x0A, 0x0D, 0x0A]
    ∃ r, Ahead .msg r stream ∧
      wp (readResponseBody .msg (-1)) (fun found r' ↦
        found = some (true, [1, 2, 3, 4, 5, 6, 7, 8, 9, 10, 11, 12, 13]) ∧ Ahead .msg r' [0x0A, 0x0D, 0x0A])
        (fun _ _ ↦ False) r ∧
      trace .httpChunked (constructChunked raw 100 40 0 ⟨0x0D :: 0x0A :: stream, [1, 0, 6, 2]⟩)
          [.getBytes 2, .bytes 4, .skip 3, .getBytes 4] =
        [some [1, 2], some [3, 4, 5, 6], some [], some [10, 11, 12, 13]] := by
  intro first second last raw stream
  obtain ⟨r, hr⟩ : ∃ r, r = messageReader stream := ⟨_, rfl⟩
  have hahead : Ahead .msg r stream := by
    rw [hr]
    exact messageReader_ahead (by decide)
  obtain ⟨hbody, htrace⟩ := decoders_agree (by decide) rfl hahead
  exact ⟨r, hahead, hbody, htrace [_, _] _ _ _ rfl rfl (.buffered raw 100 40 stream _) (by decide) (by decide)⟩

end DxApi.Net
