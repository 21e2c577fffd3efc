import DxApi.Lib.Search
import DxApi.Net.Request
import DxApi.Reader.Loads
import Mathlib.Data.List.DropRight

/-!
# The transfer form of a response

How the body of a response is sent is looked up in the text of its header: the number behind the first
`Content-Length:`, wherever that stands, or else whether `Encoding: chunked` stands somewhere. What the
header declares is said by its fields, whose names are compared without regard to the case of letters.
-/

namespace DxApi.Net

open Reader Request Search

/-! ## The source -/

def isspace (c : UInt8) : Bool := c = 0x20 || (9 ≤ c && c ≤ 13)

def isdigit (c : UInt8) : Bool := 0x30 ≤ c && c ≤ 0x39

/-- The number that some digits denote. -/
def decimal (digits : List UInt8) : ℕ := digits.foldl (fun n c ↦ 10 * n + (c.toNat - 0x30)) 0

/-- The number that a text begins with, after blanks: its sign and its digits. -/
def numberAhead (text : List UInt8) : ℤ :=
  let text := text.dropWhile isspace
  if text.head? = some 0x2D then -(decimal (text.tail.takeWhile isdigit))
  else if text.head? = some 0x2B then decimal (text.tail.takeWhile isdigit)
  else decimal (text.takeWhile isdigit)

/-- `strtoull`, to the base of ten. -/
def strtoull (text : List UInt8) : ℕ :=
  if 2 ^ 64 ≤ (numberAhead text).natAbs then 2 ^ 64 - 1 else (numberAhead text % 2 ^ 64).toNat

def contentLengthText : List UInt8 := text "Content-Length:"

def encodingChunkedText : List UInt8 := text "Encoding: chunked"

/-- `ResponseHeader::parseContentLength`. -/
def parseContentLength (header : List UInt8) : ℤ :=
  match find contentLengthText header with
  | none =>
    match find encodingChunkedText header with
    | none => 0
    | some _ => -1
  | some ofs => signed 8 (strtoull (header.drop (ofs + 15)))

/-! ## What a header declares -/

def isBlank (c : UInt8) : Bool := c = 0x20 || c = 9

/-- A byte of a value or of a reason. -/
def isText (c : UInt8) : Bool := c = 9 || (0x20 ≤ c && c ≠ 0x7F)

/-- A byte of a field name. -/
def isToken (c : UInt8) : Bool :=
  (0x30 ≤ c && c ≤ 0x39) || (0x41 ≤ c && c ≤ 0x5A) || (0x61 ≤ c && c ≤ 0x7A) ||
    [0x21, 0x23, 0x24, 0x25, 0x26, 0x27, 0x2A, 0x2B, 0x2D, 0x2E, 0x5E, 0x5F, 0x60, 0x7C, 0x7E].contains c

/-- The small letter. -/
def lower (c : UInt8) : UInt8 := if 0x41 ≤ c && c ≤ 0x5A then c + 0x20 else c

/-- A field of a header, with the blanks around its value. -/
structure HeaderField where
  name : List UInt8
  before : List UInt8
  value : List UInt8
  after : List UInt8
  name_ne : name ≠ []
  name_token : ∀ c ∈ name, isToken c
  before_blank : ∀ c ∈ before, isBlank c
  value_text : ∀ c ∈ value, isText c
  value_first : ∀ c ∈ value.head?, ¬ isBlank c
  value_last : ∀ c ∈ value.getLast?, ¬ isBlank c
  after_blank : ∀ c ∈ after, isBlank c

namespace HeaderField

/-- The line of the field. -/
def line (f : HeaderField) : List UInt8 := f.name ++ text ":" ++ f.before ++ f.value ++ f.after

/-- The field has this name, in any case. -/
def IsNamed (f : HeaderField) (name : List UInt8) : Prop := f.name.map lower = name

instance (f : HeaderField) (name : List UInt8) : Decidable (f.IsNamed name) :=
  inferInstanceAs (Decidable (f.name.map lower = name))

/-- The items of a value that is a list, in small letters. -/
def items (f : HeaderField) : List (List UInt8) :=
  ((f.value.map lower).splitOn 0x2C).map (fun item ↦ (item.dropWhile isBlank).rdropWhile isBlank)
    |>.filter (· ≠ [])

end HeaderField

/-- A header whose lengths are numbers and agree. -/
structure ValidHeader where
  code : List UInt8
  reason : List UInt8
  fields : List HeaderField
  code_length : code.length = 3
  code_digits : ∀ c ∈ code, isdigit c
  reason_text : ∀ c ∈ reason, isText c
  length_digits : ∀ f ∈ fields, f.IsNamed (text "content-length") → f.value ≠ [] ∧ ∀ c ∈ f.value, isdigit c
  length_agree : ∀ f ∈ fields, ∀ g ∈ fields, f.IsNamed (text "content-length") →
    g.IsNamed (text "content-length") → decimal f.value = decimal g.value

namespace ValidHeader

def statusLine (h : ValidHeader) : List UInt8 := text "HTTP/1.1 " ++ h.code ++ text " " ++ h.reason

def lines (h : ValidHeader) : List (List UInt8) := h.statusLine :: h.fields.map HeaderField.line

/-- The header as it is sent. -/
def bytes (h : ValidHeader) : List UInt8 := h.lines.flatMap (· ++ crlf) ++ crlf

/-- The codings that were applied to the body, in their order. -/
def codings (h : ValidHeader) : List (List UInt8) :=
  (h.fields.filter (·.IsNamed (text "transfer-encoding"))).flatMap HeaderField.items

/-- The last coding is the chunked one. -/
def IsChunked (h : ValidHeader) : Prop := h.codings.getLast? = some (text "chunked")

instance (h : ValidHeader) : Decidable h.IsChunked :=
  inferInstanceAs (Decidable (h.codings.getLast? = some (text "chunked")))

/-- The length of the body, if it is given. -/
def contentLength (h : ValidHeader) : Option ℕ :=
  (h.fields.find? (·.IsNamed (text "content-length"))).map (decimal ·.value)

/-- What `parseContentLength` is to find: -1 if the body is sent in chunks, or else its length, or 0. -/
def transferForm (h : ValidHeader) : ℤ := if h.IsChunked then -1 else h.contentLength.getD 0

/-- The text stands in a line of the header. -/
def Mentions (h : ValidHeader) (needle : List UInt8) : Prop := ∃ line ∈ h.lines, needle <:+: line

end ValidHeader

/-! ## Numbers -/

/-- In 64 bits the number is `value`: the code takes any number that has not as many bits for -1. -/
def Denotes (number value : ℤ) : Prop :=
  if 2 ^ 64 ≤ number.natAbs then value = -1
  else -2 ^ 63 ≤ value ∧ value < 2 ^ 63 ∧ (2 ^ 64 : ℤ) ∣ number - value

theorem signed_eight_eq {word : ℕ} {value : ℤ} (hword : word < 2 ^ 64) :
    signed 8 word = value ↔ -2 ^ 63 ≤ value ∧ value < 2 ^ 63 ∧ (2 ^ 64 : ℤ) ∣ word - value := by
  have hhalf : signed 8 word = if word < 2 ^ 63 then (word : ℤ) else word - 2 ^ 64 := rfl
  rw [hhalf]
  split <;> omega

theorem signed_strtoull_iff {text : List UInt8} {value : ℤ} :
    signed 8 (strtoull text) = value ↔ Denotes (numberAhead text) value := by
  rw [strtoull, Denotes]
  generalize numberAhead text = number
  split
  · have hlast : signed 8 (2 ^ 64 - 1) = -1 := by decide
    rw [hlast, eq_comm]
  · have hnonneg := Int.emod_nonneg number (show (2 ^ 64 : ℤ) ≠ 0 by decide)
    have hlt := Int.emod_lt_of_pos number (show (0 : ℤ) < 2 ^ 64 by decide)
    have hword : (number % 2 ^ 64).toNat < 2 ^ 64 := by omega
    rw [signed_eight_eq hword, Int.toNat_of_nonneg hnonneg]
    omega

/-! ## The header as a text -/

namespace ValidHeader

variable {needle : List UInt8}

/-- What has no part of a line break is in the header if a line mentions it. -/
theorem mentions_iff (h : ValidHeader) (hneedle : needle ≠ []) (hbreak : ∀ c ∈ crlf, c ∉ needle) :
    needle <:+: h.bytes ↔ h.Mentions needle := by
  have hend : ¬ needle <:+: crlf := by
    intro hstands
    obtain ⟨c, needle, rfl⟩ := List.exists_cons_of_ne_nil hneedle
    exact hbreak c (hstands.subset List.mem_cons_self) List.mem_cons_self
  rw [bytes, infix_lines hneedle hbreak (List.cons_ne_nil _ _), or_iff_left hend]
  rfl

/-- The length is spelled so that it is found: the first `Content-Length:` is followed by the number, or
there is none, and `Encoding: chunked` tells the transfer form of a body without a length. -/
def SpelledOut (h : ValidHeader) : Prop :=
  (∃ ofs, FirstAt contentLengthText h.bytes ofs ∧ Denotes (numberAhead (h.bytes.drop (ofs + 15))) h.transferForm) ∨
  ¬ h.Mentions contentLengthText ∧
    if h.IsChunked then h.Mentions encodingChunkedText
    else ¬ h.Mentions encodingChunkedText ∧ h.contentLength.getD 0 = 0

end ValidHeader

/-- The form is found exactly in a header that spells it out. -/
theorem parseContentLength_iff (h : ValidHeader) : parseContentLength h.bytes = h.transferForm ↔ h.SpelledOut := by
  have hlength := @ValidHeader.mentions_iff contentLengthText h (by decide +kernel) (by decide +kernel)
  have hchunked := @ValidHeader.mentions_iff encodingChunkedText h (by decide +kernel) (by decide +kernel)
  rw [parseContentLength, ValidHeader.SpelledOut]
  cases hfind : find contentLengthText h.bytes with
  | some ofs =>
    obtain ⟨-, hfirst⟩ := find_eq_some_iff.mp hfind
    have hmentions := hlength.mp hfirst.stands
    simp only [hmentions, not_true_eq_false, false_and, or_false, signed_strtoull_iff]
    constructor
    · exact fun hdenotes ↦ ⟨ofs, hfirst, hdenotes⟩
    · intro hspelled
      obtain ⟨ofs', hfirst', hdenotes⟩ := hspelled
      rwa [hfirst.unique hfirst']
  | none =>
    have hmentions : ¬ h.Mentions contentLengthText := by
      rw [← hlength]
      exact find_eq_none_iff.mp hfind
    have hnowhere : ¬ ∃ ofs, FirstAt contentLengthText h.bytes ofs ∧
        Denotes (numberAhead (h.bytes.drop (ofs + 15))) h.transferForm := by
      intro hspelled
      obtain ⟨ofs, hfirst, -⟩ := hspelled
      exact hmentions (hlength.mp hfirst.stands)
    rw [or_iff_right hnowhere, and_iff_right hmentions, ValidHeader.transferForm]
    cases hencoding : find encodingChunkedText h.bytes with
    | some ofs =>
      have hmention := hchunked.mp (find_eq_some_iff.mp hencoding).2.stands
      by_cases hdeclared : h.IsChunked
      · simp [hdeclared, hmention]
      · simp only [hdeclared, hmention, if_false, not_true_eq_false, false_and, iff_false]
        omega
    | none =>
      have hmention : ¬ h.Mentions encodingChunkedText := by
        rw [← hchunked]
        exact find_eq_none_iff.mp hencoding
      by_cases hdeclared : h.IsChunked
      · simp [hdeclared, hmention]
      · simp only [hdeclared, hmention, if_false, not_false_eq_true, true_and]
        omega

/-- The same digits in small letters are not found. -/
theorem parseContentLength_lower :
    ∃ h : ValidHeader, h.bytes = text "HTTP/1.1 200 OK" ++ crlf ++ text "content-length: 5" ++ crlf ++ crlf ∧
      h.transferForm = 5 ∧ parseContentLength h.bytes = 0 := by
  let field : HeaderField := ⟨text "content-length", text " ", text "5", [], by decide +kernel, by decide +kernel,
    by decide +kernel, by decide +kernel, by decide +kernel, by decide +kernel, by decide +kernel⟩
  let header : ValidHeader := ⟨text "200", text "OK", [field], rfl, by decide +kernel, by decide +kernel,
    by decide +kernel, by decide +kernel⟩
  refine ⟨header, rfl, ?_, ?_⟩
  · decide +kernel
  · decide +kernel

/-! ## The usual spelling -/

/-- The digits behind blanks are the number, up to what follows them. -/
theorem numberAhead_digits {blanks digits rest : List UInt8} (hblanks : ∀ c ∈ blanks, isspace c)
    (hdigits : ∀ c ∈ digits, isdigit c) (hne : digits ≠ []) (hrest : ∀ c ∈ rest.head?, ¬ isdigit c) :
    numberAhead (blanks ++ digits ++ rest) = decimal digits := by
  obtain ⟨d, more, rfl⟩ := List.exists_cons_of_ne_nil hne
  have hd := hdigits d List.mem_cons_self
  have hstart : ¬ isspace d = true := by
    simp only [isdigit, isspace, Bool.and_eq_true, Bool.or_eq_true, decide_eq_true_eq] at hd ⊢
    grind
  have hminus : d ≠ 0x2D := by
    rintro rfl
    exact absurd hd (by decide)
  have hplus : d ≠ 0x2B := by
    rintro rfl
    exact absurd hd (by decide)
  have hskip : (blanks ++ (d :: more) ++ rest).dropWhile isspace = (d :: more) ++ rest := by
    rw [List.append_assoc, List.dropWhile_append_of_pos hblanks, List.cons_append, List.dropWhile_cons_of_neg hstart]
  have hend : rest.takeWhile isdigit = [] := by
    cases rest with
    | nil => rfl
    | cons c rest => exact List.takeWhile_cons_of_neg (hrest c rfl)
  simp only [numberAhead, hskip, List.cons_append, List.head?_cons, Option.some.injEq, hminus, hplus, if_false]
  rw [← List.cons_append, List.takeWhile_append_of_pos hdigits, hend, List.append_nil]

/-- A length that is spelled as usual, and before which no line mentions one, is found. -/
theorem parseContentLength_usual (h : ValidHeader) {f : HeaderField} {before after : List HeaderField}
    (hfields : h.fields = before ++ f :: after) (hname : f.name = text "Content-Length")
    (hstatus : ¬ contentLengthText <:+: h.statusLine) (hbefore : ∀ g ∈ before, ¬ contentLengthText <:+: g.line)
    (hfits : decimal f.value < 2 ^ 63) : parseContentLength h.bytes = decimal f.value := by
  have hnamed : f.IsNamed (text "content-length") := by
    rw [HeaderField.IsNamed, hname]
    decide
  obtain ⟨hne, hdigits⟩ := h.length_digits f (by simp [hfields]) hnamed
  let lines := h.statusLine :: before.map HeaderField.line
  let rest := f.after ++ crlf ++ (after.map HeaderField.line).flatMap (· ++ crlf) ++ crlf
  have hbytes : h.bytes = lines.flatMap (· ++ crlf) ++ contentLengthText ++ (f.before ++ f.value ++ rest) := by
    have hline : f.line = contentLengthText ++ (f.before ++ f.value ++ f.after) := by
      rw [HeaderField.line, hname]
      simp [contentLengthText, text]
    simp [ValidHeader.bytes, ValidHeader.lines, hfields, hline, lines, rest]
  have hnone : ∀ line ∈ lines, ¬ contentLengthText <:+: line := by
    simpa [lines] using ⟨hstatus, hbefore⟩
  have hfirst : FirstAt contentLengthText h.bytes (lines.flatMap (· ++ crlf)).length := by
    rw [hbytes]
    exact firstAt_lines (by decide +kernel) (by decide +kernel) (List.cons_ne_nil _ _) hnone
  have hblanks : ∀ c ∈ f.before, isspace c := by
    intro c hc
    have hblank := f.before_blank c hc
    simp only [isBlank, isspace, Bool.or_eq_true, Bool.and_eq_true, decide_eq_true_eq] at hblank ⊢
    grind
  have hend : ∀ c ∈ rest.head?, ¬ isdigit c := by
    intro c hc
    cases hafter : f.after with
    | nil =>
      have hcr : c = 0x0D := by simpa [rest, hafter, crlf, eq_comm] using hc
      rw [hcr]
      decide
    | cons b more =>
      have hsame : b = c := by simpa [rest, hafter] using hc
      have hblank := f.after_blank b (by simp [hafter])
      rw [hsame, isBlank] at hblank
      simp only [isdigit, Bool.or_eq_true, Bool.and_eq_true, decide_eq_true_eq] at hblank ⊢
      grind
  have hnumber : numberAhead (h.bytes.drop ((lines.flatMap (· ++ crlf)).length + 15)) = decimal f.value := by
    rw [hbytes, ← List.drop_drop, List.append_assoc, List.drop_left]
    exact numberAhead_digits hblanks hdigits hne hend
  have hfind : find contentLengthText h.bytes = some (lines.flatMap (· ++ crlf)).length :=
    find_eq_some_iff.mpr ⟨by simp [hbytes], hfirst⟩
  simp only [parseContentLength, hfind]
  rw [signed_strtoull_iff, hnumber, Denotes, if_neg (by omega)]
  omega

end DxApi.Net
