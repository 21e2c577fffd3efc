import DxApi.Net.ResponseBody
import DxApi.Net.ResponseHeader
import DxApi.Net.TransferForm
import DxApi.Reader.Streaming

/-!
# A response that is cut off

The parts of a response are read off the stream of a connection. Where the connection ends within a part
whose end is known from what is before it, the reading throws: a header, a body of a given length and a
body in chunks are had whole or not at all.
-/

namespace DxApi.Net

open Exec Reader Request
open Decoding (DecodesFrom EndsBefore)

variable {fuel matched : ℕ} {header data sizeText responseBody : List UInt8} {chunks : List BodyChunk} {last : BodyChunk}

/-! ## The header -/

/-- The automaton sees the empty line at the end of the header, and not before. -/
structure SeenAtEnd (matched : ℕ) (header : List UInt8) : Prop where
  before : ∀ p, p <+: header → p ≠ header → matchAll matched p < 4
  atEnd : matchAll matched header = 4

theorem SeenAtEnd.ne_nil (h : SeenAtEnd matched header) (hmatched : matched < 4) : header ≠ [] := by
  rintro rfl
  exact absurd h.atEnd hmatched.ne

theorem SeenAtEnd.lt {c : UInt8} (h : SeenAtEnd matched (c :: header)) : matched < 4 :=
  h.before [] List.nil_prefix (List.cons_ne_nil _ _).symm

theorem SeenAtEnd.tail {c : UInt8} (h : SeenAtEnd matched (c :: header)) : SeenAtEnd (matchNext matched c) header := by
  constructor
  · intro p hp hne
    exact h.before (c :: p) (List.cons_prefix_cons.mpr ⟨rfl, hp⟩) fun heq ↦ hne (List.cons.inj heq).2
  · exact h.atEnd

theorem decodesFrom_readHeaderBytes {found : List UInt8} (h : SeenAtEnd matched header) :
    DecodesFrom AtStream .disconnected fuel (readHeaderBytes .msg fuel matched found) header (found ++ header) := by
  induction header generalizing fuel matched found with
  | nil =>
    have hdone : ¬matched < 4 := fun hlt ↦ h.ne_nil hlt rfl
    constructor
    · intro s rest hs hfuel
      obtain ⟨fuel, rfl⟩ := Nat.exists_eq_succ_of_ne_zero hfuel.ne'
      rw [readHeaderBytes, if_neg hdone, List.append_nil]
      exact wp_pure.mpr ⟨rfl, hs⟩
    · exact fun _ _ _ hends ↦ absurd hends Decoding.not_endsBefore_nil
  | cons c header ih =>
    cases fuel with
    | zero => exact Decoding.decodesFrom_zero
    | succ fuel =>
      rw [readHeaderBytes, if_pos h.lt]
      apply decodesFrom_cons
      have hrest := @ih fuel _ (found ++ [c]) h.tail
      rw [List.append_assoc, List.singleton_append] at hrest
      rwa [UInt8.ofNat_toNat]

/-- The header is read, whatever follows it. -/
theorem decodesFrom_readResponseHeader (h : SeenAtEnd 0 header) :
    DecodesFrom AtStream .disconnected fuel (readResponseHeader .msg) header header := by
  rw [readResponseHeader]
  apply Decoding.decodesFrom_get
  · exact fun r input hr ↦ Nat.lt_succ_of_le hr.length_le
  · exact fun r ↦ decodesFrom_readHeaderBytes h

theorem matchAll_append (a b : List UInt8) : matchAll matched (a ++ b) = matchAll (matchAll matched a) b :=
  List.foldl_append

theorem matchNext_le_succ (c : UInt8) : matchNext matched c ≤ matched + 1 := by
  rw [matchNext]
  split <;> omega

theorem matchAll_le (p : List UInt8) : matchAll matched p ≤ matched + p.length := by
  induction p generalizing matched with
  | nil => exact le_rfl
  | cons c p ih =>
    have hstep : matchAll matched (c :: p) ≤ matchNext matched c + p.length := ih
    have hone := @matchNext_le_succ matched c
    rw [List.length_cons]
    omega

/-- Text puts the automaton back to its start, unless there is none. -/
theorem matchAll_text {p : List UInt8} (hp : ∀ c ∈ p, c ≠ 0x0D ∧ c ≠ 0x0A) (hmatched : matched = 0 ∨ matched = 2) :
    matchAll matched p = if p = [] then matched else 0 := by
  induction p generalizing matched with
  | nil => rfl
  | cons c p ih =>
    have hc := (hp c List.mem_cons_self).1.symm
    have hstart : matchNext matched c = 0 := by
      rcases hmatched with rfl | rfl <;> simp [matchNext, crlfcrlf, hc]
    have hrest : matchAll 0 p = 0 := by
      rw [ih (fun c hc ↦ hp c (List.mem_cons_of_mem _ hc)) (.inl rfl), ite_self]
    rw [if_neg (List.cons_ne_nil c p), ← hrest]
    change matchAll (matchNext matched c) p = matchAll 0 p
    rw [hstart]

/-- Behind a line of text the automaton has seen one line break. -/
theorem matchAll_line {line : List UInt8} (hline : ∀ c ∈ line, c ≠ 0x0D ∧ c ≠ 0x0A) (hne : line ≠ [])
    (hmatched : matched = 0 ∨ matched = 2) :
    matchAll matched (line ++ crlf) = 2 ∧ ∀ p, p <+: line ++ crlf → matchAll matched p < 4 := by
  have hall : matchAll matched line = 0 := by rw [matchAll_text hline hmatched, if_neg hne]
  constructor
  · rw [matchAll_append, hall]
    rfl
  · intro p hp
    rcases List.prefix_or_prefix_of_prefix hp (List.prefix_append line crlf) with hshort | ⟨q, rfl⟩
    · rw [matchAll_text (fun c hc ↦ hline c (hshort.subset hc)) hmatched]
      split <;> omega
    · have hq := ((List.prefix_append_right_inj line).mp hp).length_le
      have hle := @matchAll_le 0 q
      have hlength : crlf.length = 2 := rfl
      rw [matchAll_append, hall]
      omega

theorem SeenAtEnd.append {a b : List UInt8} {middle : ℕ} (ha : ∀ p, p <+: a → matchAll matched p < 4)
    (hmiddle : matchAll matched a = middle) (h : SeenAtEnd middle b) : SeenAtEnd matched (a ++ b) := by
  constructor
  · intro p hp hne
    rcases List.prefix_or_prefix_of_prefix hp (List.prefix_append a b) with hshort | ⟨q, rfl⟩
    · exact ha p hshort
    · rw [matchAll_append, hmiddle]
      exact h.before q ((List.prefix_append_right_inj a).mp hp) fun heq ↦ hne (by rw [heq])
  · rw [matchAll_append, hmiddle]
    exact h.atEnd

theorem seenAtEnd_crlf : SeenAtEnd 2 crlf := by
  constructor
  · intro p hp hne
    have hle := @matchAll_le 2 p
    have hlt : p.length < crlf.length := lt_of_le_of_ne hp.length_le fun heq ↦ hne (hp.eq_of_length heq)
    have hlength : crlf.length = 2 := rfl
    omega
  · rfl

theorem seenAtEnd_lines {lines : List (List UInt8)} (hlines : ∀ line ∈ lines, line ≠ [] ∧ ∀ c ∈ line, c ≠ 0x0D ∧ c ≠ 0x0A) :
    SeenAtEnd 2 (lines.flatMap (· ++ crlf) ++ crlf) := by
  induction lines with
  | nil => exact seenAtEnd_crlf
  | cons line lines ih =>
    have hline := hlines line List.mem_cons_self
    have hseen := matchAll_line hline.2 hline.1 (.inr rfl)
    rw [List.flatMap_cons, List.append_assoc]
    exact .append hseen.2 hseen.1 (ih fun line hline ↦ hlines line (List.mem_cons_of_mem _ hline))

/-- No part of a line break. -/
theorem of_isText {c : UInt8} (h : isText c = true) : c ≠ 0x0D ∧ c ≠ 0x0A := by
  constructor <;> rintro rfl <;> exact absurd h (by decide)

theorem of_isBlank {c : UInt8} (h : isBlank c = true) : c ≠ 0x0D ∧ c ≠ 0x0A := by
  constructor <;> rintro rfl <;> exact absurd h (by decide)

theorem of_isToken {c : UInt8} (h : isToken c = true) : c ≠ 0x0D ∧ c ≠ 0x0A := by
  constructor <;> rintro rfl <;> exact absurd h (by decide)

theorem of_isdigit {c : UInt8} (h : isdigit c = true) : c ≠ 0x0D ∧ c ≠ 0x0A := by
  constructor <;> rintro rfl <;> exact absurd h (by decide)

theorem HeaderField.line_text (f : HeaderField) : f.line ≠ [] ∧ ∀ c ∈ f.line, c ≠ 0x0D ∧ c ≠ 0x0A := by
  constructor
  · simp [HeaderField.line, f.name_ne]
  · intro c hc
    simp only [HeaderField.line, List.mem_append] at hc
    rcases hc with (((hname | hcolon) | hbefore) | hvalue) | hafter
    · exact of_isToken (f.name_token c hname)
    · obtain rfl : c = 0x3A := by simpa [text] using hcolon
      decide
    · exact of_isBlank (f.before_blank c hbefore)
    · exact of_isText (f.value_text c hvalue)
    · exact of_isBlank (f.after_blank c hafter)

theorem ValidHeader.statusLine_text (h : ValidHeader) : h.statusLine ≠ [] ∧ ∀ c ∈ h.statusLine, c ≠ 0x0D ∧ c ≠ 0x0A := by
  constructor
  · simp [ValidHeader.statusLine, text]
  · intro c hc
    simp only [ValidHeader.statusLine, List.mem_append] at hc
    rcases hc with ((hprotocol | hcode) | hblank) | hreason
    · have hall : ∀ c ∈ text "HTTP/1.1 ", c ≠ 0x0D ∧ c ≠ 0x0A := by decide +kernel
      exact hall c hprotocol
    · exact of_isdigit (h.code_digits c hcode)
    · obtain rfl : c = 0x20 := by simpa [text] using hblank
      decide
    · exact of_isText (h.reason_text c hreason)

/-- A valid header ends at its empty line. -/
theorem ValidHeader.seenAtEnd (h : ValidHeader) : SeenAtEnd 0 h.bytes := by
  have hstatus := h.statusLine_text
  have hseen := matchAll_line hstatus.2 hstatus.1 (.inl rfl)
  rw [ValidHeader.bytes, ValidHeader.lines, List.flatMap_cons, List.append_assoc]
  refine .append hseen.2 hseen.1 (seenAtEnd_lines fun line hline ↦ ?_)
  obtain ⟨f, -, rfl⟩ := List.mem_map.mp hline
  exact f.line_text

/-! ## The body -/

theorem decodesFrom_readBytes (data : List UInt8) :
    DecodesFrom AtStream .disconnected fuel (readBytes .msg data.length) data data := by
  induction data generalizing fuel with
  | nil => exact Decoding.decodesFrom_pure []
  | cons ch data ih =>
    cases fuel with
    | zero => exact Decoding.decodesFrom_zero
    | succ fuel =>
      apply decodesFrom_cons
      rw [UInt8.ofNat_toNat]
      exact (@ih fuel).bind_pure (ch :: ·)

theorem decodesFrom_skipExtension {extension : List UInt8} (hextension : 0x0D ∉ extension) :
    DecodesFrom AtStream .disconnected fuel (skipExtension .msg fuel) (extension ++ [0x0D]) () := by
  induction extension generalizing fuel with
  | nil =>
    cases fuel with
    | zero => exact Decoding.decodesFrom_zero
    | succ fuel =>
      apply decodesFrom_cons
      rw [if_pos (by decide)]
      exact Decoding.decodesFrom_pure ()
  | cons ch extension ih =>
    rw [List.mem_cons, not_or] at hextension
    have hother : ¬ch.toNat = 0x0D := fun hcr ↦ hextension.1 (UInt8.toNat_inj.mp hcr).symm
    cases fuel with
    | zero => exact Decoding.decodesFrom_zero
    | succ fuel =>
      apply decodesFrom_cons
      rw [if_neg hother]
      exact ih hextension.2

theorem decodesFrom_readSizeText {digits extension : List UInt8} (hdigits : ∀ digit ∈ digits, isHexDigit digit = true)
    (hextension : extension = [] ∨ ∃ text, extension = 0x3B :: text ∧ 0x0D ∉ text) :
    DecodesFrom AtStream .disconnected fuel (readSizeText .msg fuel sizeText) (digits ++ (extension ++ [0x0D]))
      (some (sizeText ++ digits)) := by
  induction digits generalizing fuel sizeText with
  | nil =>
    rw [List.nil_append, List.append_nil]
    cases fuel with
    | zero => exact Decoding.decodesFrom_zero
    | succ fuel =>
      rcases hextension with rfl | ⟨extension, rfl, hextension⟩
      · apply decodesFrom_cons
        exact Decoding.decodesFrom_pure _
      · apply decodesFrom_cons
        exact (decodesFrom_skipExtension hextension).bind_pure fun _ ↦ some sizeText
  | cons digit digits ih =>
    cases fuel with
    | zero => exact Decoding.decodesFrom_zero
    | succ fuel =>
      apply decodesFrom_cons
      rw [UInt8.ofNat_toNat, if_pos (hdigits digit List.mem_cons_self)]
      have hrest := @ih fuel (sizeText ++ [digit]) fun other hother ↦ hdigits other (List.mem_cons_of_mem _ hother)
      rwa [List.append_assoc, List.singleton_append] at hrest

theorem BodyChunk.decodesFrom_line (chunk : BodyChunk) :
    DecodesFrom AtStream .disconnected fuel (readSizeText .msg fuel []) chunk.line (some chunk.digits) :=
  decodesFrom_readSizeText (isHexDigit_of_numberFrom chunk.digits_value) chunk.extension_eq

/-- The chunks are read up to the `CR` in the line of the last one. -/
theorem decodesFrom_readChunks (hdata : ∀ chunk ∈ chunks, chunk.data ≠ []) (hlast : last.data = []) :
    DecodesFrom AtStream .disconnected fuel (readChunks .msg fuel responseBody) (bodyWire chunks last)
      (some (true, responseBody ++ bodyOf chunks)) := by
  induction chunks generalizing fuel responseBody with
  | nil =>
    cases fuel with
    | zero => exact Decoding.decodesFrom_zero
    | succ fuel =>
      have hwire : bodyWire [] last = last.line ++ [] := (List.append_nil _).symm
      have hsize := signed_strtoul last
      rw [hlast] at hsize
      rw [hwire, readChunks]
      apply last.decodesFrom_line.bind
      simp only [if_neg last.digits_ne_nil, hsize]
      rw [if_pos (by simp), bodyOf, List.flatMap_nil, List.append_nil]
      exact Decoding.decodesFrom_pure _
  | cons chunk chunks ih =>
    cases fuel with
    | zero => exact Decoding.decodesFrom_zero
    | succ fuel =>
      have hsize := signed_strtoul chunk
      have hne := hdata chunk List.mem_cons_self
      have hnonzero : ¬(chunk.data.length : ℤ) = 0 := by
        rw [Int.natCast_eq_zero, List.length_eq_zero_iff]
        exact hne
      have hresize : resize responseBody (responseBody.length + chunk.data.length) = some responseBody := by
        rw [resize, if_neg (by omega), List.take_of_length_le (by omega)]
      have hrest := @ih fuel (responseBody ++ chunk.data) fun other hother ↦ hdata other (List.mem_cons_of_mem _ hother)
      rw [bodyWire_cons, readChunks]
      apply chunk.decodesFrom_line.bind
      simp only [if_neg chunk.digits_ne_nil, hsize, if_neg hnonzero, hresize, Int.toNat_natCast]
      apply (decodesFrom_skip _ (show [0x0A].length ≤ 0x200 by decide)).bind
      apply (decodesFrom_readBytes chunk.data).bind
      apply (decodesFrom_skip _ (show [0x0D, 0x0A].length ≤ 0x200 by decide)).bind
      rw [bodyOf, List.flatMap_cons, ← List.append_assoc]
      exact hrest.mono (by simp only [List.length_cons, List.length_nil]; omega)

/-- All bytes up to the end of the connection. -/
theorem readToEnd_spec {r : DataReader} (h : AtStream r data) (hfuel : data.length < fuel) :
    wp (readToEnd .msg fuel responseBody) (fun found _ ↦ found = responseBody ++ data) (fun _ _ ↦ False) r := by
  induction fuel generalizing r data responseBody with
  | zero => exact absurd hfuel (Nat.not_lt_zero _)
  | succ fuel ih =>
    rw [readToEnd, wp_bind, wp_attempt]
    cases data with
    | nil =>
      have hends : EndsBefore [] [(0 : UInt8)] := Decoding.endsBefore_of_length_lt List.nil_prefix Nat.zero_lt_one
      apply wp_mono ((decodesFrom_getByte 1 0).part r [] h hends Nat.zero_lt_one)
      · exact fun _ _ ↦ False.elim
      · rintro _ r' rfl
        exact (List.append_nil _).symm
    | cons ch data =>
      apply wp_mono ((decodesFrom_getByte 2 ch).whole r data h (Nat.lt_succ_self 1))
      · rintro _ r' ⟨rfl, hr'⟩
        rw [List.length_cons] at hfuel
        apply wp_mono (ih hr' (by omega))
        · rintro found _ rfl
          rw [UInt8.ofNat_toNat, List.append_assoc, List.singleton_append]
        · exact fun _ _ ↦ id
      · exact fun _ _ ↦ False.elim

end DxApi.Net
