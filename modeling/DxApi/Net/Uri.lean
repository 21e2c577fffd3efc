import DxApi.Lib.CString
import DxApi.Net.TransferForm

/-!
# Parsing of a URI

`Uri::parse` looks for the question mark of the query, for a protocol in front of it, for the slash of the
path and for the colon of the port, in this order. A colon of the path is taken for the end of a protocol
when two slashes follow it, and the port is read by `strtoull`, which also reads blanks and a sign.
-/

namespace DxApi.Net

open Request

/-! ## The source -/

def colon : UInt8 := 0x3A

def slash : UInt8 := 0x2F

def questionMark : UInt8 := 0x3F

structure Uri where
  full : List UInt8
  queryString : List UInt8
  path : List UInt8
  protocol : List UInt8
  host : List UInt8
  portString : List UInt8
  port : ℕ
  deriving DecidableEq, Repr

/-- `string(first, last)`, of places in a text. -/
def between (text : List UInt8) (first last : ℕ) : List UInt8 := (text.take last).drop first

/-- `std::find(first, last, c)`, of places in a text. -/
def findChar (text : List UInt8) (first last : ℕ) (c : UInt8) : ℕ :=
  first + (between text first last).findIdx (· == c)

/-- How many characters `strtoull` reads: none when there are no digits. -/
def strtoullLength (text : List UInt8) : ℕ :=
  let blanks := (text.takeWhile isspace).length
  let rest := text.drop blanks
  let sign := if rest.head? = some 0x2D ∨ rest.head? = some 0x2B then 1 else 0
  let digits := ((rest.drop sign).takeWhile isdigit).length
  if digits = 0 then 0 else blanks + sign + digits

namespace Uri

/-- The last part of `parse`: the port is read and checked. -/
def parsePort (uri : Uri) : Bool × Uri :=
  let text := CString.untilZero uri.portString
  if uri.portString.length ≠ 0 ∧ strtoullLength text ≠ uri.portString.length then (false, uri)
  else
    let port := if uri.portString.length ≠ 0 then strtoull text else 0
    (decide (port &&& 0xFFFF = port), { uri with port := port &&& 0xFFFF })

/-- The protocol ends at this colon. -/
def endsProtocol (uri : List UInt8) (protocolEnd queryStart : ℕ) : Bool :=
  let prot := CString.untilZero (uri.drop protocolEnd)
  protocolEnd ≠ queryStart && 3 < prot.length && prot.take 3 = text "://"

/-- What it returns, and the members it sets. -/
def parse (uri : List UInt8) (members : Uri) : Bool × Uri :=
  if uri.length = 0 then (false, members)
  else
    let uriEnd := uri.length
    let queryStart := findChar uri 0 uriEnd questionMark
    let protocolEnd := findChar uri 0 queryStart colon
    let hasProtocol := endsProtocol uri protocolEnd queryStart
    let hostStart := if hasProtocol then protocolEnd + 3 else 0
    let pathStart := findChar uri hostStart queryStart slash
    let hostEnd := findChar uri hostStart pathStart colon
    parsePort
      { full := uri
        queryString := if queryStart ≠ uriEnd then between uri queryStart uriEnd else []
        path := if pathStart ≠ uriEnd then between uri pathStart queryStart else []
        protocol := if hasProtocol then between uri 0 protocolEnd else []
        host := between uri hostStart hostEnd
        portString := if hostEnd ≠ pathStart then between uri (hostEnd + 1) pathStart else []
        port := 0 }

end Uri

/-! ## What is composed -/

/-- The components of a text: each is free of the delimiters that end it. No protocol, no path and no query are
empty or absent; a port is what is behind the colon, whatever that is. -/
structure UriComponents where
  protocol : Option (List UInt8)
  host : List UInt8
  port : Option (List UInt8)
  path : List UInt8
  query : List UInt8
  protocol_free : ∀ p ∈ protocol, colon ∉ p
  host_free : colon ∉ host ∧ slash ∉ host ∧ questionMark ∉ host
  port_free : ∀ p ∈ port, slash ∉ p ∧ questionMark ∉ p
  path_free : questionMark ∉ path
  path_start : path ≠ [] → path.head? = some slash
  query_start : query ≠ [] → query.head? = some questionMark

namespace UriComponents

/-- The protocol with its delimiter. -/
def protocolText (c : UriComponents) : List UInt8 := c.protocol.elim [] (· ++ text "://")

/-- The port with its delimiter. -/
def portText (c : UriComponents) : List UInt8 := c.port.elim [] (colon :: ·)

/-- What is between the protocol and the query. -/
def authority (c : UriComponents) : List UInt8 := c.host ++ (c.portText ++ c.path)

/-- What is in front of the query. -/
def before (c : UriComponents) : List UInt8 := c.protocolText ++ c.authority

/-- `protocol://host:port/path?query`. -/
def composed (c : UriComponents) : List UInt8 := c.before ++ c.query

/-- The members for these components, in front of the port. -/
def found (c : UriComponents) : Uri :=
  ⟨c.composed, c.query, c.path, c.protocol.getD [], c.host, c.port.getD [], 0⟩

/-- The members for these components. -/
def uri (c : UriComponents) : Uri := { c.found with port := decimal (c.port.getD []) }

end UriComponents

/-! ## Places in a text -/

section

variable {before middle after : List UInt8} {c : UInt8}

@[simp]
theorem between_append (before middle after : List UInt8) :
    between (before ++ (middle ++ after)) before.length (before.length + middle.length) = middle := by
  rw [between, ← List.append_assoc, ← List.length_append, List.take_left, List.drop_left]

/-- The character stands behind what does not have it, or is not found. -/
theorem findChar_append (hnone : c ∉ middle) {stop : List UInt8} (hstop : stop = [] ∨ stop.head? = some c) :
    findChar (before ++ (middle ++ (stop ++ after))) before.length (before.length + middle.length + stop.length) c =
      before.length + middle.length := by
  have hbetween := between_append before (middle ++ stop) after
  rw [List.append_assoc, List.length_append, ← Nat.add_assoc] at hbetween
  rw [findChar, hbetween, Nat.add_left_cancel_iff]
  have hmiddle : middle.findIdx (· == c) = middle.length := by
    rw [List.findIdx_eq_length]
    intro d hd
    rw [beq_eq_false_iff_ne]
    rintro rfl
    exact hnone hd
  rw [List.findIdx_append, hmiddle, if_neg (Nat.lt_irrefl _)]
  rcases hstop with rfl | hstop
  · rw [List.findIdx_nil, Nat.zero_add]
  · obtain ⟨stop, rfl⟩ := List.head?_eq_some_iff.mp hstop
    rw [List.findIdx_cons, beq_self_eq_true, cond_true, Nat.zero_add]

end

/-! ## The number of a port -/

/-- A port: one or more digits, with a value that has 16 bits. -/
def IsPort (port : List UInt8) : Prop := port ≠ [] ∧ (∀ c ∈ port, isdigit c) ∧ decimal port ≤ 65535

/-- Nothing, or blanks, a sign and digits with a value that has 16 bits when it is taken modulo `2 ^ 64`. -/
def IsReadAsPort (port : List UInt8) : Prop :=
  port = [] ∨ ∃ blanks sign digits, port = blanks ++ (sign ++ digits) ∧ (∀ c ∈ blanks, isspace c) ∧
    (sign = [] ∨ sign = [0x2B] ∨ sign = [0x2D]) ∧ digits ≠ [] ∧ (∀ c ∈ digits, isdigit c) ∧
    if sign = [0x2D] then decimal digits = 0 ∨ 2 ^ 64 - 65535 ≤ decimal digits ∧ decimal digits < 2 ^ 64
    else decimal digits ≤ 65535

section

variable {c : UInt8} {blanks sign digits port : List UInt8}

theorem isspace_of_isdigit (h : isdigit c) : ¬ isspace c := by
  simp only [isdigit, isspace, Bool.and_eq_true, Bool.or_eq_true, decide_eq_true_eq] at h ⊢
  grind

/-- A sign and digits, as they are read. -/
structure IsNumeral (blanks sign digits : List UInt8) : Prop where
  blanks_space : ∀ c ∈ blanks, isspace c
  sign_eq : sign = [] ∨ sign = [0x2B] ∨ sign = [0x2D]
  digits_ne : digits ≠ []
  digits_digit : ∀ c ∈ digits, isdigit c

theorem IsNumeral.dropWhile (h : IsNumeral blanks sign digits) :
    (blanks ++ (sign ++ digits)).dropWhile isspace = sign ++ digits := by
  obtain ⟨d, digits, rfl⟩ := List.exists_cons_of_ne_nil h.digits_ne
  have hd := isspace_of_isdigit (h.digits_digit d List.mem_cons_self)
  rw [List.dropWhile_append_of_pos h.blanks_space]
  rcases h.sign_eq with rfl | rfl | rfl
  · exact List.dropWhile_cons_of_neg hd
  · exact List.dropWhile_cons_of_neg (by decide)
  · exact List.dropWhile_cons_of_neg (by decide)

theorem IsNumeral.takeWhile (h : IsNumeral blanks sign digits) :
    (blanks ++ (sign ++ digits)).takeWhile isspace = blanks := by
  have hsplit := List.takeWhile_append_dropWhile (p := isspace) (l := blanks ++ (sign ++ digits))
  rw [h.dropWhile] at hsplit
  exact List.append_cancel_right hsplit

theorem IsNumeral.zero_not_mem (h : IsNumeral blanks sign digits) : 0 ∉ blanks ++ (sign ++ digits) := by
  have hsign : (0 : UInt8) ∉ sign := by
    rcases h.sign_eq with rfl | rfl | rfl <;> decide
  simp only [List.mem_append, not_or]
  exact ⟨fun hzero ↦ absurd (h.blanks_space 0 hzero) (by decide), hsign,
    fun hzero ↦ absurd (h.digits_digit 0 hzero) (by decide)⟩

/-- What is read has no first digit that is a sign. -/
theorem IsNumeral.head?_digits (h : IsNumeral blanks sign digits) :
    digits.head? ≠ some 0x2D ∧ digits.head? ≠ some 0x2B := by
  obtain ⟨d, digits, rfl⟩ := List.exists_cons_of_ne_nil h.digits_ne
  have hd := h.digits_digit d List.mem_cons_self
  constructor
  · intro hhead
    cases hhead
    exact absurd hd (by decide)
  · intro hhead
    cases hhead
    exact absurd hd (by decide)

theorem IsNumeral.strtoullLength (h : IsNumeral blanks sign digits) :
    strtoullLength (blanks ++ (sign ++ digits)) = (blanks ++ (sign ++ digits)).length := by
  obtain ⟨hminus, hplus⟩ := h.head?_digits
  have hall : digits.takeWhile isdigit = digits := List.takeWhile_eq_self_iff.mpr h.digits_digit
  have hlength : digits.length ≠ 0 := fun hzero ↦ h.digits_ne (List.length_eq_zero_iff.mp hzero)
  simp only [Net.strtoullLength, h.takeWhile, List.drop_left]
  rcases h.sign_eq with rfl | rfl | rfl
  · simp [hminus, hplus, hall, hlength]
  · simp [hall, hlength]
    omega
  · simp [hall, hlength]
    omega

theorem IsNumeral.numberAhead (h : IsNumeral blanks sign digits) :
    numberAhead (blanks ++ (sign ++ digits)) = if sign = [0x2D] then -(decimal digits : ℤ) else decimal digits := by
  obtain ⟨hminus, hplus⟩ := h.head?_digits
  have hall : digits.takeWhile isdigit = digits := List.takeWhile_eq_self_iff.mpr h.digits_digit
  simp only [Net.numberAhead, h.dropWhile]
  rcases h.sign_eq with rfl | rfl | rfl
  · simp [hminus, hplus, hall]
  · simp [hall]
  · simp [hall]

/-- A text that is read as a whole. -/
theorem isNumeral_of_strtoullLength (hne : port ≠ []) (hall : strtoullLength port = port.length) :
    ∃ blanks sign digits, port = blanks ++ (sign ++ digits) ∧ IsNumeral blanks sign digits := by
  have hsplit := List.takeWhile_append_dropWhile (p := isspace) (l := port)
  generalize hblanks : port.takeWhile isspace = blanks at hsplit
  generalize port.dropWhile isspace = behind at hsplit
  have hdrop : port.drop blanks.length = behind := by rw [← hsplit, List.drop_left]
  have hspace : ∀ c ∈ blanks, isspace c := by
    intro c hc
    rw [← hblanks] at hc
    exact List.mem_takeWhile_imp hc
  -- the digits go up to the end of the text
  have hread (sign more : List UInt8) (hbehind : behind = sign ++ more)
      (hsign : sign = [] ∨ sign = [0x2B] ∨ sign = [0x2D])
      (hlength : (if (more.takeWhile isdigit).length = 0 then 0
        else blanks.length + sign.length + (more.takeWhile isdigit).length) = port.length) :
      ∃ blanks sign digits, port = blanks ++ (sign ++ digits) ∧ IsNumeral blanks sign digits := by
    have hport : port.length = blanks.length + (sign.length + more.length) := by
      rw [← hsplit, hbehind, List.length_append, List.length_append]
    have hprefix : more.takeWhile isdigit <+: more := List.takeWhile_prefix _
    split_ifs at hlength with hzero
    · exact absurd (List.length_eq_zero_iff.mp hlength.symm) hne
    · have hdigits : more.takeWhile isdigit = more := hprefix.eq_of_length (by omega)
      refine ⟨blanks, sign, more, by rw [← hsplit, hbehind], hspace, hsign, ?_, ?_⟩
      · rintro rfl
        exact hzero rfl
      · exact List.takeWhile_eq_self_iff.mp hdigits
  simp only [strtoullLength, hblanks, hdrop] at hall
  by_cases hsign : behind.head? = some 0x2D ∨ behind.head? = some 0x2B
  · rw [if_pos hsign] at hall
    rcases hsign with hsign | hsign
    · obtain ⟨more, rfl⟩ := List.head?_eq_some_iff.mp hsign
      exact hread [0x2D] more rfl (.inr (.inr rfl)) hall
    · obtain ⟨more, rfl⟩ := List.head?_eq_some_iff.mp hsign
      exact hread [0x2B] more rfl (.inr (.inl rfl)) hall
  · rw [if_neg hsign] at hall
    exact hread [] behind rfl (.inl rfl) hall

theorem strtoullLength_le (port : List UInt8) : strtoullLength port ≤ port.length := by
  unfold strtoullLength
  extract_lets blanks behind sign digits
  have hdigits : digits ≤ (behind.drop sign).length := (List.takeWhile_prefix _).length_le
  rw [List.length_drop, List.length_drop] at hdigits
  split_ifs <;> omega

/-- The value that is read has 16 bits. -/
theorem IsNumeral.strtoull_le_iff (h : IsNumeral blanks sign digits) :
    strtoull (blanks ++ (sign ++ digits)) ≤ 65535 ↔
      if sign = [0x2D] then decimal digits = 0 ∨ 2 ^ 64 - 65535 ≤ decimal digits ∧ decimal digits < 2 ^ 64
      else decimal digits ≤ 65535 := by
  rw [strtoull, h.numberAhead]
  split_ifs <;> omega

/-- There is no zero byte in what is read. -/
theorem IsReadAsPort.untilZero (h : IsReadAsPort port) : CString.untilZero port = port := by
  rcases h with rfl | ⟨blanks, sign, digits, rfl, hblanks, hsign, hdigits, hall, -⟩
  · rfl
  · have hnumeral : IsNumeral blanks sign digits := ⟨hblanks, hsign, hdigits, hall⟩
    exact CString.untilZero_bytes ⟨_, hnumeral.zero_not_mem⟩

/-- `strtoull` reads the port as a whole, and the value has 16 bits. -/
theorem isReadAsPort_iff (hne : port ≠ []) :
    IsReadAsPort port ↔ strtoullLength (CString.untilZero port) = port.length ∧
      strtoull (CString.untilZero port) ≤ 65535 := by
  constructor
  · intro h
    rw [h.untilZero]
    obtain ⟨blanks, sign, digits, rfl, hblanks, hsign, hdigits, hall, hvalue⟩ := h.resolve_left hne
    have hnumeral : IsNumeral blanks sign digits := ⟨hblanks, hsign, hdigits, hall⟩
    exact ⟨hnumeral.strtoullLength, hnumeral.strtoull_le_iff.mpr hvalue⟩
  · rintro ⟨hlength, hvalue⟩
    have huntil : CString.untilZero port = port := by
      have hprefix : CString.untilZero port <+: port := List.takeWhile_prefix _
      have hle := strtoullLength_le (CString.untilZero port)
      exact hprefix.eq_of_length_le (by omega)
    rw [huntil] at hlength hvalue
    obtain ⟨blanks, sign, digits, rfl, h⟩ := isNumeral_of_strtoullLength hne hlength
    exact .inr ⟨blanks, sign, digits, rfl, h.blanks_space, h.sign_eq, h.digits_ne, h.digits_digit,
      h.strtoull_le_iff.mp hvalue⟩

/-- Digits alone are a numeral. -/
theorem isNumeral_of_digits (hne : digits ≠ []) (hdigits : ∀ c ∈ digits, isdigit c) : IsNumeral [] [] digits :=
  ⟨fun _ hc ↦ absurd hc List.not_mem_nil, .inl rfl, hne, hdigits⟩

theorem IsPort.isReadAsPort (h : IsPort port) : IsReadAsPort port :=
  .inr ⟨[], [], port, rfl, fun _ hc ↦ absurd hc List.not_mem_nil, .inl rfl, h.1, h.2.1, by simpa using h.2.2⟩

/-- Digits that are read as a port are one. -/
theorem IsReadAsPort.isPort (h : IsReadAsPort port) (hne : port ≠ []) (hdigits : ∀ c ∈ port, isdigit c) :
    IsPort port := by
  have hvalue := ((isReadAsPort_iff hne).mp h).2
  rw [h.untilZero] at hvalue
  exact ⟨hne, hdigits, (isNumeral_of_digits hne hdigits).strtoull_le_iff.mp hvalue⟩

/-- A port is read as the number it denotes. -/
theorem IsPort.strtoull (h : IsPort port) :
    strtoullLength (CString.untilZero port) = port.length ∧ strtoull (CString.untilZero port) = decimal port := by
  have hnumeral := isNumeral_of_digits h.1 h.2.1
  have hnumber : numberAhead port = decimal port := hnumeral.numberAhead
  have hvalue := h.2.2
  rw [h.isReadAsPort.untilZero]
  refine ⟨hnumeral.strtoullLength, ?_⟩
  rw [Net.strtoull, hnumber]
  split_ifs <;> omega

end

namespace Uri

variable {uri : Uri}

theorem land_eq_self_iff (n : ℕ) : n &&& 0xFFFF = n ↔ n ≤ 65535 := by
  have hmod : n &&& 0xFFFF = n % 65536 := Nat.and_two_pow_sub_one_eq_mod n 16
  omega

theorem parsePort_of_empty (h : uri.portString = []) : parsePort uri = (true, { uri with port := 0 }) := by
  simp [parsePort, h]

/-- The port is accepted exactly if it is read. -/
theorem parsePort_iff : (parsePort uri).1 = true ↔ IsReadAsPort uri.portString := by
  by_cases hne : uri.portString = []
  · rw [parsePort_of_empty hne, hne]
    exact iff_of_true rfl (.inl rfl)
  · have hlength : uri.portString.length ≠ 0 := fun hzero ↦ hne (List.length_eq_zero_iff.mp hzero)
    rw [isReadAsPort_iff hne, parsePort]
    split_ifs with hread
    · exact iff_of_false id fun h ↦ hread.2 h.1
    · rw [decide_eq_true_eq, land_eq_self_iff, and_iff_right]
      by_contra hother
      exact hread ⟨hlength, hother⟩

/-- The port that is accepted. -/
theorem parsePort_of_isPort (h : IsPort uri.portString) :
    parsePort uri = (true, { uri with port := decimal uri.portString }) := by
  obtain ⟨hread, hvalue⟩ := h.strtoull
  have hlength : uri.portString.length ≠ 0 := fun hzero ↦ h.1 (List.length_eq_zero_iff.mp hzero)
  have hbits := (land_eq_self_iff (decimal uri.portString)).mpr h.2.2
  rw [parsePort, if_neg fun hother ↦ hother.2 hread, if_pos hlength]
  simp only [hvalue, hbits, decide_true]

/-- The other members stay as they are. -/
theorem parsePort_snd (uri : Uri) : ∃ port, (parsePort uri).2 = { uri with port := port } := by
  unfold parsePort
  extract_lets
  split_ifs
  · exact ⟨uri.port, rfl⟩
  · exact ⟨_, rfl⟩

end Uri

/-! ## The protocol -/

/-- In the text before the query the first colon is followed by two slashes, and these by a character that is
not the zero that ends a string. -/
def DelimitsProtocol (before query protocol behind : List UInt8) : Prop :=
  before = protocol ++ (text "://" ++ behind) ∧ colon ∉ protocol ∧ ∃ d, (behind ++ query).head? = some d ∧ d ≠ 0

section

variable {before query protocol behind protocol' : List UInt8}

theorem delimiter_eq : text "://" = [colon, slash, slash] := by decide

/-- A character divides a text in one way. -/
theorem split_unique {c : UInt8} {a a' b b' : List UInt8} (ha : c ∉ a) (ha' : c ∉ a') (hb : b ≠ [] → b.head? = some c)
    (hb' : b' ≠ [] → b'.head? = some c) (h : a ++ b = a' ++ b') : a = a' ∧ b = b' := by
  rcases List.append_eq_append_iff.mp h with ⟨more, rfl, rfl⟩ | ⟨more, rfl, rfl⟩
  · cases more with
    | nil => exact ⟨(List.append_nil _).symm, rfl⟩
    | cons d more =>
      cases hb (List.cons_ne_nil _ _)
      exact absurd (by simp) ha'
  · cases more with
    | nil => exact ⟨List.append_nil _, rfl⟩
    | cons d more =>
      cases hb' (List.cons_ne_nil _ _)
      exact absurd (by simp) ha

/-- A text is divided by the first place of a character. -/
theorem exists_split (c : UInt8) (text : List UInt8) : ∃ a b, text = a ++ b ∧ c ∉ a ∧ (b ≠ [] → b.head? = some c) := by
  by_cases hc : c ∈ text
  · obtain ⟨a, b, rfl, ha⟩ := List.eq_append_cons_of_mem hc
    exact ⟨a, c :: b, rfl, ha, fun _ ↦ rfl⟩
  · exact ⟨text, [], (List.append_nil _).symm, hc, fun hne ↦ absurd rfl hne⟩

theorem DelimitsProtocol.unique (h : DelimitsProtocol before query protocol behind) (hprotocol' : colon ∉ protocol')
    {more : List UInt8} (hbefore : before = protocol' ++ colon :: more) :
    protocol = protocol' ∧ slash :: slash :: behind = more := by
  have hsame : protocol ++ colon :: slash :: slash :: behind = protocol' ++ colon :: more := by
    rw [← hbefore, h.1, delimiter_eq]
    rfl
  obtain ⟨rfl, hmore⟩ := split_unique h.2.1 hprotocol' (fun _ ↦ rfl) (fun _ ↦ rfl) hsame
  exact ⟨rfl, (List.cons.inj hmore).2⟩

/-- The place of the first colon. -/
theorem findChar_colon (hprotocol : colon ∉ protocol) (more query : List UInt8) :
    findChar (protocol ++ colon :: more ++ query) 0 (protocol ++ colon :: more).length colon = protocol.length := by
  have h := @findChar_append [] protocol query colon hprotocol (colon :: more) (.inr rfl)
  simpa [Nat.add_assoc] using h

theorem findChar_none {c : UInt8} (hnone : c ∉ before) (query : List UInt8) :
    findChar (before ++ query) 0 before.length c = before.length := by
  have h := @findChar_append [] before query c hnone [] (.inl rfl)
  simpa using h

/-- Four characters are read, and the first three are the delimiter. -/
theorem delimiter_read (more : List UInt8) :
    (3 < (CString.untilZero (colon :: more)).length ∧ (CString.untilZero (colon :: more)).take 3 = text "://") ↔
      ∃ d rest, more = slash :: slash :: d :: rest ∧ d ≠ 0 := by
  have hcolon : colon ≠ 0 := by decide
  have hslash : slash ≠ 0 := by decide
  rw [delimiter_eq, CString.untilZero_cons, if_neg hcolon]
  constructor
  · rintro ⟨hlength, htake⟩
    match more with
    | [] => simp at hlength
    | [c] =>
      rw [CString.untilZero_cons] at hlength
      split_ifs at hlength <;> simp at hlength
    | [c, c'] =>
      rw [CString.untilZero_cons, CString.untilZero_cons] at hlength
      split_ifs at hlength <;> simp at hlength
    | c :: c' :: d :: rest =>
      simp only [CString.untilZero_cons] at hlength htake
      split_ifs at hlength htake with hc hc' hd
      · simp at hlength
      · simp at hlength
      · simp at hlength
      · simp only [List.take_succ_cons, List.take_zero, List.cons.injEq] at htake
        exact ⟨d, rest, by rw [htake.2.1, htake.2.2.1], hd⟩
  · rintro ⟨d, rest, rfl, hd⟩
    simp [CString.untilZero_cons, hslash, hd]

/-- Where the protocol ends. -/
theorem endsProtocol_iff (hquery : query ≠ [] → query.head? = some questionMark) :
    Uri.endsProtocol (before ++ query) (findChar (before ++ query) 0 before.length colon) before.length = true ↔
      ∃ protocol behind, DelimitsProtocol before query protocol behind := by
  by_cases hcolon : colon ∈ before
  · obtain ⟨protocol, more, rfl, hprotocol⟩ := List.eq_append_cons_of_mem hcolon
    have hplace : protocol.length ≠ (protocol ++ colon :: more).length := by simp
    have hdrop : (protocol ++ colon :: more ++ query).drop protocol.length = colon :: (more ++ query) := by
      rw [List.append_assoc, List.drop_left, List.cons_append]
    have hread := delimiter_read (more ++ query)
    rw [findChar_colon hprotocol]
    simp only [Uri.endsProtocol, hdrop, Bool.and_eq_true, decide_eq_true_eq, and_iff_right hplace, hread]
    constructor
    · rintro ⟨d, rest, hmore, hd⟩
      -- the query does not begin with a slash, so the slashes are in front of it
      obtain ⟨behind, rfl, hbehind⟩ : ∃ behind, more = slash :: slash :: behind ∧ behind ++ query = d :: rest := by
        match more with
        | [] =>
          rw [List.nil_append] at hmore
          have hhead := hquery (by rw [hmore]; exact List.cons_ne_nil _ _)
          rw [hmore] at hhead
          cases hhead
        | [c] =>
          rw [List.cons_append, List.nil_append, List.cons.injEq] at hmore
          have hhead := hquery (by rw [hmore.2]; exact List.cons_ne_nil _ _)
          rw [hmore.2] at hhead
          cases hhead
        | c :: c' :: behind =>
          simp only [List.cons_append, List.cons.injEq] at hmore
          obtain ⟨rfl, rfl, hbehind⟩ := hmore
          exact ⟨behind, rfl, hbehind⟩
      exact ⟨protocol, behind, by rw [delimiter_eq]; rfl, hprotocol, d, by rw [hbehind]; rfl, hd⟩
    · rintro ⟨protocol', behind, hdelimits⟩
      obtain ⟨rfl, rfl⟩ := hdelimits.unique hprotocol rfl
      obtain ⟨d, hhead, hd⟩ := hdelimits.2.2
      obtain ⟨rest, hrest⟩ := List.head?_eq_some_iff.mp hhead
      exact ⟨d, rest, by rw [List.cons_append, List.cons_append, hrest], hd⟩
  · rw [findChar_none hcolon]
    constructor
    · intro hends
      simp [Uri.endsProtocol] at hends
    · rintro ⟨protocol, behind, hbefore, -⟩
      rw [hbefore, delimiter_eq] at hcolon
      simp at hcolon

end

/-! ## The components that are found -/

/-- What is in front of the host: nothing, or a protocol with its delimiter. -/
inductive IsFront (before query : List UInt8) : (front protocol behind : List UInt8) → Prop
  | none (hnone : ∀ protocol behind, ¬ DelimitsProtocol before query protocol behind) : IsFront before query [] [] before
  | protocol {protocol behind : List UInt8} (hdelimits : DelimitsProtocol before query protocol behind) :
    IsFront before query (protocol ++ text "://") protocol behind

section

variable {before query front protocol behind host path : List UInt8} {port : Option (List UInt8)}

theorem IsFront.eq (h : IsFront before query front protocol behind) : before = front ++ behind := by
  cases h with
  | none => rfl
  | protocol hdelimits => rw [hdelimits.1, List.append_assoc]

theorem IsFront.front_eq (h : IsFront before query front protocol behind) :
    front = [] ∨ front = protocol ++ text "://" := by
  cases h with
  | none => exact .inl rfl
  | protocol => exact .inr rfl

theorem IsFront.cases (h : IsFront before query front protocol behind) :
    (protocol = [] ∧ behind = before ∧ ∀ protocol behind, ¬ DelimitsProtocol before query protocol behind) ∨
      DelimitsProtocol before query protocol behind := by
  cases h with
  | none hnone => exact .inl ⟨rfl, rfl, hnone⟩
  | protocol hdelimits => exact .inr hdelimits

/-- Where the host starts, and the protocol. -/
theorem IsFront.hostStart (h : IsFront before query front protocol behind)
    (hquery : query ≠ [] → query.head? = some questionMark) :
    let protocolEnd := findChar (before ++ query) 0 before.length colon
    let hasProtocol := Uri.endsProtocol (before ++ query) protocolEnd before.length
    (if hasProtocol then protocolEnd + 3 else 0) = front.length ∧
      (if hasProtocol then between (before ++ query) 0 protocolEnd else []) = protocol := by
  intro protocolEnd hasProtocol
  have hends : hasProtocol = true ↔ ∃ protocol behind, DelimitsProtocol before query protocol behind :=
    endsProtocol_iff hquery
  cases h with
  | none hnone =>
    have hfalse : ¬ hasProtocol = true := by
      rw [hends]
      rintro ⟨protocol, behind, hdelimits⟩
      exact hnone protocol behind hdelimits
    rw [if_neg hfalse, if_neg hfalse]
    exact ⟨rfl, rfl⟩
  | protocol hdelimits =>
    have htrue : hasProtocol = true := hends.mpr ⟨_, _, hdelimits⟩
    have hbefore : before = protocol ++ colon :: slash :: slash :: behind := by
      rw [hdelimits.1, delimiter_eq]
      rfl
    have hplace : protocolEnd = protocol.length := by
      change findChar (before ++ query) 0 before.length colon = _
      rw [hbefore]
      exact findChar_colon hdelimits.2.1 _ query
    have hbetween := between_append [] protocol (colon :: slash :: slash :: behind ++ query)
    rw [if_pos htrue, if_pos htrue, hplace, hbefore]
    refine ⟨by rw [delimiter_eq]; simp, ?_⟩
    simpa using hbetween

end

/-- The components of a text, as they are found. -/
structure SplitText (text : List UInt8) where
  before : List UInt8
  query : List UInt8
  front : List UInt8
  protocol : List UInt8
  host : List UInt8
  port : Option (List UInt8)
  path : List UInt8
  text_eq : text = before ++ query
  before_free : questionMark ∉ before
  query_start : query ≠ [] → query.head? = some questionMark
  isFront : IsFront before query front protocol (host ++ (port.elim [] (colon :: ·) ++ path))
  host_free : colon ∉ host ∧ slash ∉ host
  port_free : ∀ p ∈ port, slash ∉ p
  path_start : path ≠ [] → path.head? = some slash

namespace SplitText

variable {text : List UInt8}

/-- The members that are set, in front of the port. -/
def uri (s : SplitText text) : Uri := ⟨text, s.query, s.path, s.protocol, s.host, s.port.getD [], 0⟩

/-- Each text has its components. -/
theorem exists_splitText (text : List UInt8) : Nonempty (SplitText text) := by
  obtain ⟨before, query, htext, hbefore, hquery⟩ := exists_split questionMark text
  obtain ⟨front, protocol, behind, hfront⟩ : ∃ front protocol behind, IsFront before query front protocol behind := by
    by_cases hdelimits : ∃ protocol behind, DelimitsProtocol before query protocol behind
    · obtain ⟨protocol, behind, hdelimits⟩ := hdelimits
      exact ⟨_, _, _, .protocol hdelimits⟩
    · exact ⟨_, _, _, .none fun protocol behind h ↦ hdelimits ⟨protocol, behind, h⟩⟩
  obtain ⟨authority, path, rfl, hauthority, hpath⟩ := exists_split slash behind
  obtain ⟨host, portText, rfl, hhost, hportText⟩ := exists_split colon authority
  rw [List.mem_append, not_or] at hauthority
  rw [List.append_assoc] at hfront
  cases portText with
  | nil =>
    exact ⟨⟨before, query, front, protocol, host, none, path, htext, hbefore, hquery, hfront, ⟨hhost, hauthority.1⟩,
      (fun _ hp ↦ nomatch hp), hpath⟩⟩
  | cons c p =>
    cases hportText (List.cons_ne_nil _ _)
    refine ⟨⟨before, query, front, protocol, host, some p, path, htext, hbefore, hquery, hfront,
      ⟨hhost, hauthority.1⟩, ?_, hpath⟩⟩
    rintro _ ⟨⟩
    exact List.not_mem_of_not_mem_cons hauthority.2

/-- The port with its delimiter. -/
def portText (s : SplitText text) : List UInt8 := s.port.elim [] (colon :: ·)

variable (s : SplitText text)

theorem before_eq : s.before = s.front ++ (s.host ++ (s.portText ++ s.path)) := s.isFront.eq

theorem text_parts : text = s.front ++ (s.host ++ (s.portText ++ (s.path ++ s.query))) := by
  calc
    text = s.before ++ s.query := s.text_eq
    _ = s.front ++ (s.host ++ (s.portText ++ (s.path ++ s.query))) := by
      rw [s.before_eq]
      simp only [List.append_assoc]

theorem length_before : s.before.length = s.front.length + (s.host ++ s.portText).length + s.path.length := by
  rw [s.before_eq]
  simp only [List.length_append]
  omega

theorem portText_head : s.portText = [] ∨ s.portText.head? = some colon := by
  rw [portText]
  cases s.port with
  | none => exact .inl rfl
  | some p => exact .inr rfl

theorem slash_not_mem : slash ∉ s.host ++ s.portText := by
  rw [List.mem_append, not_or]
  refine ⟨s.host_free.2, ?_⟩
  rw [portText]
  cases hport : s.port with
  | none => exact List.not_mem_nil
  | some p => exact List.not_mem_cons_of_ne_of_not_mem (by decide) (s.port_free p hport)

/-- The query begins at the first question mark. -/
theorem findChar_query : findChar text 0 text.length questionMark = s.before.length := by
  have h := @findChar_append [] s.before [] questionMark s.before_free s.query (by have := s.query_start; tauto)
  simpa only [List.nil_append, List.append_nil, List.length_nil, Nat.zero_add, ← List.length_append, ← s.text_eq]
    using h

/-- The path begins at the first slash behind the protocol. -/
theorem findChar_path :
    findChar text s.front.length s.before.length slash = s.front.length + (s.host ++ s.portText).length := by
  have h := @findChar_append s.front (s.host ++ s.portText) s.query slash s.slash_not_mem s.path
    (by have := s.path_start; tauto)
  rwa [← s.length_before, List.append_assoc, ← s.text_parts] at h

/-- The port begins at the first colon of the authority. -/
theorem findChar_port : findChar text s.front.length (s.front.length + (s.host ++ s.portText).length) colon =
    s.front.length + s.host.length := by
  have h := @findChar_append s.front s.host (s.path ++ s.query) colon s.host_free.1 s.portText s.portText_head
  rwa [← s.text_parts, Nat.add_assoc, ← List.length_append] at h

theorem between_query : between text s.before.length text.length = s.query := by
  have h := between_append s.before s.query []
  rwa [List.append_nil, ← s.text_eq, ← List.length_append, ← s.text_eq] at h

theorem between_path :
    between text (s.front.length + (s.host ++ s.portText).length) s.before.length = s.path := by
  have h := between_append (s.front ++ (s.host ++ s.portText)) s.path s.query
  rwa [List.length_append, ← s.length_before, List.append_assoc, List.append_assoc, ← s.text_parts] at h

theorem between_host : between text s.front.length (s.front.length + s.host.length) = s.host := by
  have h := between_append s.front s.host (s.portText ++ (s.path ++ s.query))
  rwa [← s.text_parts] at h

theorem between_port {p : List UInt8} (hport : s.port = some p) :
    between text (s.front.length + s.host.length + 1) (s.front.length + (s.host ++ s.portText).length) = p := by
  have hportText : s.portText = colon :: p := by rw [portText, hport, Option.elim_some]
  have hparts : s.front ++ (s.host ++ [colon]) ++ (p ++ (s.path ++ s.query)) = text := by
    calc
      s.front ++ (s.host ++ [colon]) ++ (p ++ (s.path ++ s.query)) =
          s.front ++ (s.host ++ (s.portText ++ (s.path ++ s.query))) := by simp [hportText]
      _ = text := s.text_parts.symm
  have h := between_append (s.front ++ (s.host ++ [colon])) p (s.path ++ s.query)
  rw [hparts] at h
  simpa [hportText, Nat.add_assoc, Nat.add_comm 1] using h

end SplitText

/-- The members that are set. -/
theorem parse_eq {uri : List UInt8} (s : SplitText uri) (hne : uri ≠ []) (members : Uri) :
    Uri.parse uri members = Uri.parsePort s.uri := by
  obtain ⟨hhostStart, hprotocol⟩ := s.isFront.hostStart s.query_start
  rw [← s.text_eq] at hhostStart hprotocol
  have hnonempty : uri.length ≠ 0 := fun hzero ↦ hne (List.length_eq_zero_iff.mp hzero)
  have hlength : uri.length = s.before.length + s.query.length := by
    rw [← List.length_append, ← s.text_eq]
  rw [Uri.parse, if_neg hnonempty]
  simp only [s.findChar_query, hhostStart, hprotocol, s.findChar_path, s.findChar_port, s.between_query,
    s.between_path, s.between_host]
  congr 2
  · rw [ite_eq_left_iff, not_not]
    intro hlast
    exact (List.length_eq_zero_iff.mp (by omega)).symm
  · rw [ite_eq_left_iff, not_not]
    intro hlast
    have hbefore := s.length_before
    exact (List.length_eq_zero_iff.mp (by omega)).symm
  · cases hport : s.port with
    | none =>
      have hempty : s.portText = [] := by
        rw [SplitText.portText, hport]
        rfl
      rw [hempty, List.append_nil, if_neg (not_not.mpr rfl)]
      rfl
    | some p =>
      rw [s.between_port hport, if_pos]
      · rfl
      · rw [SplitText.portText, hport]
        simp

/-! ## What is composed is read back -/

namespace UriComponents

/-- The protocol has no question mark, and what is behind its delimiter begins with a character that is not the
zero that ends a string. -/
def KeepsProtocol (c : UriComponents) : Prop :=
  ∀ p ∈ c.protocol, questionMark ∉ p ∧ ∃ d, (c.authority ++ c.query).head? = some d ∧ d ≠ 0

/-- There is something to read, the protocol is found, and without a protocol and a port no colon of the path is
taken for the end of a protocol. -/
structure ReadsBack (c : UriComponents) : Prop where
  composed_ne : c.composed ≠ []
  protocol : c.KeepsProtocol
  path : c.protocol = none → c.port = none → ∀ protocol behind, ¬ DelimitsProtocol c.path c.query protocol behind

variable {c : UriComponents} {members : Uri}

theorem questionMark_not_mem_authority (c : UriComponents) : questionMark ∉ c.authority := by
  have hportText : questionMark ∉ c.portText := by
    rw [portText]
    cases hport : c.port with
    | none => exact List.not_mem_nil
    | some p => exact List.not_mem_cons_of_ne_of_not_mem (by decide) (c.port_free p hport).2
  simp only [authority, List.mem_append, not_or]
  exact ⟨c.host_free.2.2, hportText, c.path_free⟩

theorem KeepsProtocol.before_free (h : c.KeepsProtocol) : questionMark ∉ c.before := by
  rw [before, List.mem_append, not_or]
  refine ⟨?_, c.questionMark_not_mem_authority⟩
  rw [protocolText]
  cases hprotocol : c.protocol with
  | none => exact List.not_mem_nil
  | some p =>
    rw [Option.elim_some, List.mem_append, not_or]
    exact ⟨(h p hprotocol).1, by decide⟩

/-- The components are found once what is in front of the host is. -/
def split (c : UriComponents) (hprotocol : c.KeepsProtocol)
    (hfront : IsFront c.before c.query c.protocolText (c.protocol.getD []) c.authority) : SplitText c.composed where
  before := c.before
  query := c.query
  front := c.protocolText
  protocol := c.protocol.getD []
  host := c.host
  port := c.port
  path := c.path
  text_eq := rfl
  before_free := hprotocol.before_free
  query_start := c.query_start
  isFront := hfront
  host_free := ⟨c.host_free.1, c.host_free.2.1⟩
  port_free p hp := (c.port_free p hp).1
  path_start := c.path_start

theorem delimitsProtocol_of_protocol {p : List UInt8} (hp : c.protocol = some p) (h : c.KeepsProtocol) :
    DelimitsProtocol c.before c.query p c.authority :=
  ⟨by rw [before, protocolText, hp, Option.elim_some, List.append_assoc], c.protocol_free p hp, (h p hp).2⟩

/-- A protocol ends at a colon. -/
theorem before_of_protocol {p : List UInt8} (hp : c.protocol = some p) :
    c.before = p ++ colon :: (slash :: slash :: c.authority) := by
  rw [before, protocolText, hp, Option.elim_some, List.append_assoc, delimiter_eq]
  rfl

/-- Without a protocol only a colon of the path can be taken for the end of one, unless the port is empty and the
path begins with two slashes. -/
theorem not_delimitsProtocol (hnone : c.protocol = none) (hport : c.port = some [] → ¬ [slash, slash] <+: c.path)
    (hpath : c.port = none → ∀ protocol behind, ¬ DelimitsProtocol c.path c.query protocol behind)
    (protocol behind : List UInt8) : ¬ DelimitsProtocol c.before c.query protocol behind := by
  intro hdelimits
  have hbefore : c.before = c.host ++ (c.portText ++ c.path) := by
    rw [before, protocolText, hnone]
    rfl
  cases hp : c.port with
  | some p =>
    have hcolon : c.before = c.host ++ colon :: (p ++ c.path) := by
      rw [hbefore, portText, hp]
      rfl
    obtain ⟨-, hmore⟩ := hdelimits.unique c.host_free.1 hcolon
    cases p with
    | nil => exact hport hp ⟨behind, by rw [← List.nil_append c.path, ← hmore]; rfl⟩
    | cons d p =>
      rw [List.cons_append, List.cons.injEq] at hmore
      exact (c.port_free _ hp).1 (by rw [← hmore.1]; exact List.mem_cons_self)
  | none =>
    obtain ⟨hdelimiter, hprotocol, hhead⟩ := hdelimits
    have hsame : c.host ++ c.path = protocol ++ (text "://" ++ behind) := by
      rw [← hdelimiter, hbefore, portText, hp]
      rfl
    rcases List.append_eq_append_iff.mp hsame with ⟨more, hmore, hrest⟩ | ⟨more, hmore, hrest⟩
    · rw [hmore, List.mem_append, not_or] at hprotocol
      exact hpath hp more behind ⟨hrest, hprotocol.2, hhead⟩
    · cases more with
      | nil => exact hpath hp [] behind ⟨hrest.symm, List.not_mem_nil, hhead⟩
      | cons d more =>
        rw [delimiter_eq] at hrest
        have hcolon : colon = d := (List.cons.inj hrest).1
        refine c.host_free.1 ?_
        rw [hmore, hcolon]
        simp

/-- What is in front of the host, when it is found. -/
theorem isFront_of_not_delimits (hnone : c.protocol = none)
    (hnot : ∀ protocol behind, ¬ DelimitsProtocol c.before c.query protocol behind) :
    IsFront c.before c.query c.protocolText (c.protocol.getD []) c.authority := by
  have hbefore : c.before = c.authority := by
    rw [before, protocolText, hnone]
    rfl
  have hfront := IsFront.none hnot
  rw [protocolText, hnone]
  rwa [← hbefore]

theorem isFront_of_protocol {p : List UInt8} (hp : c.protocol = some p) (h : c.KeepsProtocol) :
    IsFront c.before c.query c.protocolText (c.protocol.getD []) c.authority := by
  have hfront := IsFront.protocol (delimitsProtocol_of_protocol hp h)
  rw [protocolText, hp]
  exact hfront

/-- The components in front of the port are found exactly. -/
theorem parse_of_isFront (hne : c.composed ≠ []) (hprotocol : c.KeepsProtocol)
    (hfront : IsFront c.before c.query c.protocolText (c.protocol.getD []) c.authority) (members : Uri) :
    Uri.parse c.composed members = Uri.parsePort c.found :=
  parse_eq (c.split hprotocol hfront) hne members

/-- The port of the components is one. -/
theorem parsePort_found (hport : ∀ p ∈ c.port, IsPort p) : Uri.parsePort c.found = (true, c.uri) := by
  cases hp : c.port with
  | none =>
    have hempty : c.found.portString = [] := by
      rw [found, hp]
      rfl
    rw [Uri.parsePort_of_empty hempty, uri, hp]
    rfl
  | some p =>
    have hsame : c.found.portString = p := by
      rw [found, hp]
      rfl
    rw [Uri.parsePort_of_isPort (by rw [hsame]; exact hport p hp), uri, hp, hsame]
    rfl

/-- Where a text is divided that is composed. -/
theorem split_before (s : SplitText c.composed) (hfree : questionMark ∉ c.before) :
    s.before = c.before ∧ s.query = c.query :=
  split_unique s.before_free hfree s.query_start c.query_start s.text_eq.symm

theorem length_portText (port : Option (List UInt8)) :
    (port.getD []).length ≤ (port.elim [] (colon :: ·)).length ∧
      (port.elim [] (colon :: ·)).length ≤ (port.getD []).length + 1 := by
  cases port <;> simp

/-- What stands in front of the host in a text of which the components are read back. -/
theorem isFront_of_parse (hne : c.composed ≠ []) (h : Uri.parse c.composed members = (true, c.uri)) :
    questionMark ∉ c.before ∧ ∃ (front : List UInt8) (port : Option (List UInt8)), c.port.getD [] = port.getD [] ∧
      IsFront c.before c.query front (c.protocol.getD []) (c.host ++ (port.elim [] (colon :: ·) ++ c.path)) := by
  obtain ⟨s⟩ := SplitText.exists_splitText c.composed
  rw [parse_eq s hne] at h
  obtain ⟨port, hsnd⟩ := Uri.parsePort_snd s.uri
  rw [h] at hsnd
  have hquery : c.query = s.query := congrArg Uri.queryString hsnd
  have hpath : c.path = s.path := congrArg Uri.path hsnd
  have hprotocol : c.protocol.getD [] = s.protocol := congrArg Uri.protocol hsnd
  have hhost : c.host = s.host := congrArg Uri.host hsnd
  have hbefore : c.before = s.before := by
    have htext : c.before ++ c.query = s.before ++ s.query := s.text_eq
    rw [hquery] at htext
    exact List.append_cancel_right htext
  rw [hbefore, hquery, hhost, hpath, hprotocol]
  exact ⟨s.before_free, s.front, s.port, congrArg Uri.portString hsnd, s.isFront⟩

/-- A protocol that is found has its delimiter. -/
theorem delimits_of_isFront {front : List UInt8} {port : Option (List UInt8)}
    (hport : c.port.getD [] = port.getD [])
    (hfront : IsFront c.before c.query front (c.protocol.getD []) (c.host ++ (port.elim [] (colon :: ·) ++ c.path)))
    {p : List UInt8} (hp : c.protocol = some p) : ∃ d, (c.authority ++ c.query).head? = some d ∧ d ≠ 0 := by
  rcases hfront.cases with ⟨-, hbehind, -⟩ | hdelimits
  · -- the text in front of the query is longer than the host, the port and the path
    have hlength := congrArg List.length hbehind
    have hle := (length_portText port).2
    have hle' := (length_portText c.port).1
    rw [← hport] at hle
    rw [before_of_protocol hp, authority, portText] at hlength
    simp only [List.length_append, List.length_cons] at hlength
    omega
  · obtain ⟨-, hmore⟩ := hdelimits.unique (c.protocol_free p hp) (before_of_protocol hp)
    simp only [List.cons.injEq, true_and] at hmore
    rw [← hmore]
    exact hdelimits.2.2

/-- Without a protocol and a port none is found in the path. -/
theorem not_delimits_path {front : List UInt8} {port : Option (List UInt8)}
    (hfront : IsFront c.before c.query front (c.protocol.getD []) (c.host ++ (port.elim [] (colon :: ·) ++ c.path)))
    (hnone : c.protocol = none) (hnoPort : c.port = none) (protocol behind : List UInt8) :
    ¬ DelimitsProtocol c.path c.query protocol behind := by
  intro hdelimits
  have hcomposed : c.before = c.host ++ c.path := by
    rw [before, protocolText, hnone, authority, portText, hnoPort]
    rfl
  rcases hfront.cases with ⟨-, -, hnot⟩ | hfound
  · refine hnot (c.host ++ protocol) behind ⟨?_, ?_, hdelimits.2.2⟩
    · rw [hcomposed, List.append_assoc, ← hdelimits.1]
    · rw [List.mem_append, not_or]
      exact ⟨c.host_free.1, hdelimits.2.1⟩
  · -- the protocol that is found is empty, but neither the host nor the path begins with a colon
    have hstart : c.host ++ c.path = colon :: (slash :: slash :: (c.host ++ (port.elim [] (colon :: ·) ++ c.path))) := by
      have hsplit := hfound.1
      rw [hnone, hcomposed, delimiter_eq] at hsplit
      exact hsplit
    cases hhost : c.host with
    | nil =>
      rw [hhost, List.nil_append] at hstart
      have hhead := c.path_start (by rw [hstart]; exact List.cons_ne_nil _ _)
      rw [hstart, List.head?_cons] at hhead
      exact absurd (Option.some.inj hhead) (by decide)
    | cons d host =>
      rw [hhost, List.cons_append, List.cons.injEq] at hstart
      exact c.host_free.1 (by rw [hhost, hstart.1]; exact List.mem_cons_self)

/-- Exact components are found under the conditions only. -/
theorem readsBack_of_parse (h : Uri.parse c.composed members = (true, c.uri)) : c.ReadsBack := by
  have hne : c.composed ≠ [] := by
    intro hempty
    rw [hempty, Uri.parse, if_pos (show [].length = 0 from rfl)] at h
    cases h
  obtain ⟨hfree, front, port, hport, hfront⟩ := isFront_of_parse hne h
  refine ⟨hne, ?_, not_delimits_path hfront⟩
  intro p hp
  refine ⟨fun hmark ↦ hfree ?_, delimits_of_isFront hport hfront hp⟩
  rw [before_of_protocol hp]
  exact List.mem_append_left _ hmark

/-- Under the conditions exactly the components are found. -/
theorem parse_of_readsBack (hport : ∀ p ∈ c.port, IsPort p) (h : c.ReadsBack) :
    Uri.parse c.composed members = (true, c.uri) := by
  rw [← parsePort_found hport]
  cases hprotocol : c.protocol with
  | some p => exact parse_of_isFront h.composed_ne h.protocol (isFront_of_protocol hprotocol h.protocol) members
  | none =>
    have hnot := not_delimitsProtocol hprotocol (fun hempty ↦ absurd rfl (hport [] hempty).1) (h.path hprotocol)
    exact parse_of_isFront h.composed_ne h.protocol (isFront_of_not_delimits hprotocol hnot) members

/-- A protocol that is not kept is not found, and then no port is. -/
theorem port_eq_of_not_keepsProtocol (s : SplitText c.composed) (hnot : ¬ c.KeepsProtocol) : s.port.getD [] = [] := by
  simp only [KeepsProtocol, not_forall] at hnot
  obtain ⟨p, hp, hnot⟩ := hnot
  have hcomposed := before_of_protocol hp
  have hbefore := s.isFront.eq
  cases hport : s.port with
  | none => rfl
  | some portPart =>
    rw [hport, Option.elim_some] at hbefore
    have hcolon : colon ∈ s.before := by
      rw [hbefore]
      simp
    by_cases hmark : questionMark ∈ p
    · -- the query begins in the protocol, and no colon stands in front of it
      obtain ⟨p₁, p₂, hsplit, hfree⟩ := List.eq_append_cons_of_mem hmark
      have htext : s.before ++ s.query = p₁ ++ questionMark :: (p₂ ++ colon :: (slash :: slash :: c.authority) ++ c.query) := by
        rw [← s.text_eq, composed, hcomposed, hsplit]
        simp only [List.append_assoc, List.cons_append]
      obtain ⟨hsame, -⟩ := split_unique s.before_free hfree s.query_start (fun _ ↦ rfl) htext
      refine absurd ?_ (c.protocol_free p hp)
      rw [hsplit, ← hsame]
      exact List.mem_append_left _ hcolon
    · have hfree : questionMark ∉ c.before := by
        have hauthority := c.questionMark_not_mem_authority
        rw [hcomposed]
        simp only [List.mem_append, List.mem_cons, not_or]
        exact ⟨hmark, by decide, by decide, by decide, hauthority⟩
      obtain ⟨hsame, hquery⟩ := split_before s hfree
      have hfront := s.isFront
      rw [hsame, hquery, hport, Option.elim_some] at hfront
      rcases hfront.cases with ⟨-, hbehind, -⟩ | hdelimits
      · -- the first colon is the one of the delimiter, with a slash behind it
        rw [hcomposed, List.cons_append] at hbehind
        obtain ⟨-, hmore⟩ := split_unique s.host_free.1 (c.protocol_free p hp) (fun _ ↦ rfl) (fun _ ↦ rfl) hbehind
        have hrest : portPart ++ s.path = slash :: slash :: c.authority := (List.cons.inj hmore).2
        cases portPart with
        | nil => rfl
        | cons d portPart =>
          rw [List.cons_append, List.cons.injEq] at hrest
          exact absurd (by rw [← hrest.1]; exact List.mem_cons_self) (s.port_free _ hport)
      · obtain ⟨-, hmore⟩ := hdelimits.unique (c.protocol_free p hp) hcomposed
        simp only [List.cons.injEq, true_and] at hmore
        have hhead := hdelimits.2.2
        rw [hmore] at hhead
        exact absurd ⟨hmark, hhead⟩ hnot

end UriComponents

/-- A text that is composed of components, with a port that is one. -/
structure ComposedUri extends UriComponents where
  port_isPort : ∀ p ∈ port, IsPort p

/-- A text whose port part is no port. An empty one is in front of no path of two slashes, which would make the
host a protocol. -/
structure MalformedUri extends UriComponents where
  portPart : List UInt8
  port_eq : port = some portPart
  not_isPort : ¬ IsPort portPart
  portPart_start : protocol = none → portPart = [] → ¬ [slash, slash] <+: path

theorem MalformedUri.composed_ne (c : MalformedUri) : c.composed ≠ [] := by
  intro hempty
  have hcolon : colon ∈ c.composed := by
    simp [UriComponents.composed, UriComponents.before, UriComponents.authority, UriComponents.portText, c.port_eq]
  rw [hempty] at hcolon
  cases hcolon

theorem MalformedUri.not_delimits (c : MalformedUri) (hnone : c.protocol = none) (protocol behind : List UInt8) :
    ¬ DelimitsProtocol c.before c.query protocol behind := by
  refine UriComponents.not_delimitsProtocol hnone ?_ ?_ protocol behind
  · intro hport
    rw [c.port_eq, Option.some.injEq] at hport
    exact c.portPart_start hnone hport
  · intro hport
    rw [c.port_eq] at hport
    cases hport

/-- When a text with a malformed port is rejected. -/
theorem MalformedUri.rejected_iff (c : MalformedUri) (members : Uri) :
    (Uri.parse c.composed members).1 = false ↔ c.KeepsProtocol ∧ ¬ IsReadAsPort c.portPart := by
  have hport : c.found.portString = c.portPart := by
    rw [UriComponents.found, c.port_eq]
    rfl
  by_cases hkeeps : c.KeepsProtocol
  · have hfront : IsFront c.before c.query c.protocolText (c.protocol.getD []) c.authority := by
      cases hprotocol : c.protocol with
      | some p => exact hprotocol ▸ UriComponents.isFront_of_protocol hprotocol hkeeps
      | none => exact hprotocol ▸ UriComponents.isFront_of_not_delimits hprotocol (c.not_delimits hprotocol)
    rw [UriComponents.parse_of_isFront c.composed_ne hkeeps hfront, ← Bool.not_eq_true, Uri.parsePort_iff, hport,
      and_iff_right hkeeps]
  · obtain ⟨s⟩ := SplitText.exists_splitText c.composed
    have hempty := UriComponents.port_eq_of_not_keepsProtocol s hkeeps
    rw [parse_eq s c.composed_ne, Uri.parsePort_of_empty hempty]
    exact iff_of_false Bool.noConfusion fun h ↦ hkeeps h.1

/-- When the components of a composed text are read back, and when a text with a malformed port is rejected. -/
theorem parse_iff (c : ComposedUri) (malformed : MalformedUri) (members : Uri) :
    (Uri.parse c.composed members = (true, c.uri) ↔ c.ReadsBack) ∧
      ((Uri.parse malformed.composed members).1 = false ↔
        malformed.KeepsProtocol ∧ ¬ IsReadAsPort malformed.portPart) :=
  ⟨⟨UriComponents.readsBack_of_parse, UriComponents.parse_of_readsBack c.port_isPort⟩,
    malformed.rejected_iff members⟩

/-- The members of a `Uri` that nothing was read into. -/
def Uri.blank : Uri := ⟨[], [], [], [], [], [], 0⟩

/-- Of `localhost/a://b` a protocol is read, and the port of `host:+80` is accepted. -/
theorem parse_slips :
    (∃ c : ComposedUri, c.composed = text "localhost/a://b" ∧ Uri.parse c.composed .blank ≠ (true, c.uri)) ∧
    ∃ c : MalformedUri, c.composed = text "host:+80" ∧ (Uri.parse c.composed .blank).1 = true := by
  let slashed : ComposedUri :=
    { protocol := none, host := text "localhost", port := none, path := text "/a://b", query := []
      protocol_free := nofun, host_free := by decide, port_free := nofun, path_free := by decide
      path_start := by decide, query_start := by decide, port_isPort := nofun }
  let signed : MalformedUri :=
    { protocol := none, host := text "host", port := some (text "+80"), path := [], query := []
      protocol_free := nofun, host_free := by decide, port_free := by decide, path_free := by decide
      path_start := by decide, query_start := by decide, portPart := text "+80", port_eq := rfl
      not_isPort := fun h ↦ absurd (h.2.1 0x2B (by decide)) (by decide), portPart_start := by decide }
  exact ⟨⟨slashed, rfl, by decide +kernel⟩, ⟨signed, rfl, by decide +kernel⟩⟩

end DxApi.Net
