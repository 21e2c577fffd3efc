import DxApi.Lib.CString
import DxApi.Xml.ClassDescriptor

/-!
# The spans of a source

A `StrPair` keeps a span of the text that is parsed. `GetStr` translates it in place when it is asked for:
line ends become line feeds, and entities the characters they stand for. An ampersand that begins no entity
leaves the byte that stands at the place of the output, and a broken reference to a character leads to a read
through `NULL`.
-/

namespace DxApi.Xml

open Net Request CString

/-! ## Finding a span -/

def isalpha (c : UInt8) : Bool := (0x41 ≤ c && c ≤ 0x5A) || (0x61 ≤ c && c ≤ 0x7A)

/-- `XMLUtil::IsNameStartChar`. -/
def isNameStartChar (c : UInt8) : Bool := (if c < 128 then isalpha c else true) || c = 0x3A || c = 0x5F

/-- `XMLUtil::IsNameChar`. -/
def isNameChar (c : UInt8) : Bool := isNameStartChar c || isdigit c || c = 0x2E || c = 0x2D

/-- `XMLUtil::SkipWhiteSpace`. -/
def skipWhiteSpace (p : Text) : Text := p.dropWhile isspace

/-- `StrPair::ParseText`: what stands in front of the end tag, and what stands behind it. -/
def parseText (endTag : Text) : Text → Option (Text × Text)
  | [] => none
  | c :: p =>
    if endTag <+: c :: p then some ([], (c :: p).drop endTag.length)
    else (parseText endTag p).map fun (value, rest) ↦ (c :: value, rest)

/-- `StrPair::ParseName`: the name, empty if there is none, and what stands behind it. -/
def parseName : Text → Text × Text
  | [] => ([], [])
  | c :: p => if isNameStartChar c then (c :: p.takeWhile isNameChar, p.dropWhile isNameChar) else ([], c :: p)

/-- The end tag stands behind the text that is found. -/
theorem eq_of_parseText {endTag p value rest : Text} (h : parseText endTag p = some (value, rest)) :
    p = value ++ (endTag ++ rest) := by
  induction p generalizing value with
  | nil => cases h
  | cons c p ih =>
    rw [parseText] at h
    split_ifs at h with htag
    · cases h
      rw [List.nil_append]
      exact (List.prefix_iff_eq_append.mp htag).symm
    · obtain ⟨⟨value', rest'⟩, hrest, heq⟩ := Option.map_eq_some_iff.mp h
      cases heq
      rw [List.cons_append, ← ih hrest]

theorem length_skipWhiteSpace_le (p : Text) : (skipWhiteSpace p).length ≤ p.length := List.length_dropWhile_le ..

theorem length_parseName_le (p : Text) : (parseName p).2.length ≤ p.length := by
  cases p with
  | nil => exact le_refl _
  | cons c p =>
    rw [parseName]
    split
    · exact (List.length_dropWhile_le ..).trans (Nat.le_succ _)
    · exact le_refl _

/-! ## Translating a span -/

/-- `XMLUtil::ConvertUTF32ToUTF8`. -/
def convertUTF32ToUTF8 (input : ℕ) : Text :=
  let continuation (n : ℕ) : UInt8 := UInt8.ofNat ((n ||| 0x80) &&& 0xBF)
  if input < 0x80 then [UInt8.ofNat input]
  else if input < 0x800 then [UInt8.ofNat (input >>> 6 ||| 0xC0), continuation input]
  else if input < 0x10000 then
    [UInt8.ofNat (input >>> 12 ||| 0xE0), continuation (input >>> 6), continuation input]
  else if input < 0x200000 then
    [UInt8.ofNat (input >>> 18 ||| 0xF0), continuation (input >>> 12), continuation (input >>> 6), continuation input]
  else []

def decimalDigit (c : UInt8) : Option ℕ := if isdigit c then some (c.toNat - 0x30) else none

def hexadecimalDigit (c : UInt8) : Option ℕ :=
  if isdigit c then some (c.toNat - 0x30)
  else if 0x61 ≤ c ∧ c ≤ 0x66 then some (c.toNat - 0x61 + 10)
  else if 0x41 ≤ c ∧ c ≤ 0x46 then some (c.toNat - 0x41 + 10)
  else none

/-- The loop over digits from the last one on: the products have 32 bits, and their sum 64. -/
def sumDigits (base : ℕ) (digit : UInt8 → Option ℕ) : Text → ℕ → ℕ → Option ℕ
  | [], ucs, _ => some ucs
  | c :: digits, ucs, mult =>
    match digit c with
    | none => none
    | some d => sumDigits base digit digits ((ucs + mult * d % 2 ^ 32) % 2 ^ 64) (mult * base % 2 ^ 32)

/-- A reference up to its semicolon, read backwards from there to the nearest character that starts it. -/
def readReference (base : ℕ) (digit : UInt8 → Option ℕ) (start : UInt8) (p : Text) : Option (Text × Text) :=
  if 0x3B ∈ p then
    (sumDigits base digit ((p.takeWhile (· ≠ 0x3B)).reverse.takeWhile (· ≠ start)) 0 1).map fun ucs ↦
      (convertUTF32ToUTF8 ucs, (p.dropWhile (· ≠ 0x3B)).tail)
  else none

/-- `XMLUtil::GetCharacterRef` behind `&#`: what it stands for, and where it ends; `none` is `NULL`. -/
def getCharacterRef : Text → Option (Text × Text)
  | [] => some ([], [0x23])
  | c :: p => if c = 0x78 then readReference 16 hexadecimalDigit 0x78 p else readReference 10 decimalDigit 0x23 (c :: p)

/-- The table of `tinyxml2`, with the semicolons. -/
def entityTable : List (Text × UInt8) :=
  [(text "quot;", 0x22), (text "amp;", 0x26), (text "apos;", 0x27), (text "lt;", 0x3C), (text "gt;", 0x3E)]

/-- Where the text goes on behind a line end: the second byte of a pair is skipped. -/
def behindLineEnd (second : UInt8) (p : Text) : Text := if p.head? = some second then p.tail else p

theorem length_readReference_le {base : ℕ} {digit : UInt8 → Option ℕ} {start : UInt8} {p value rest : Text}
    (h : readReference base digit start p = some (value, rest)) : rest.length ≤ p.length := by
  rw [readReference] at h
  split at h
  · obtain ⟨ucs, -, heq⟩ := Option.map_eq_some_iff.mp h
    cases heq
    exact (List.tail_sublist _).length_le.trans (List.length_dropWhile_le ..)
  · cases h

theorem length_getCharacterRef_le {p value rest : Text} (h : getCharacterRef p = some (value, rest)) :
    rest.length ≤ p.length + 1 := by
  cases p with
  | nil =>
    cases h
    exact le_refl _
  | cons c p =>
    rw [getCharacterRef] at h
    split at h
    · exact (length_readReference_le h).trans (Nat.le_add_right _ 2)
    · exact (length_readReference_le h).trans (Nat.le_succ _)

theorem length_behindLineEnd_le (second : UInt8) (p : Text) : (behindLineEnd second p).length ≤ p.length := by
  rw [behindLineEnd]
  split
  · exact (List.tail_sublist p).length_le
  · exact le_refl _

/-- The loop of `StrPair::GetStr`, with what is left to read and what was written. -/
def getStrFrom (processEntities : Bool) (source : Text) : Text → Text → Option Text
  | [], out => some out
  | c :: p, out =>
    if c = 0x0D then getStrFrom processEntities source (behindLineEnd 0x0A p) (out ++ [0x0A])
    else if c = 0x0A then getStrFrom processEntities source (behindLineEnd 0x0D p) (out ++ [0x0A])
    else if processEntities ∧ c = 0x26 then
      if p.head? = some 0x23 then
        match _ : getCharacterRef p.tail with
        | none => none
        | some (value, rest) => getStrFrom processEntities source rest (out ++ value)
      else
        match entityTable.find? fun entity ↦ entity.1 <+: p with
        | some (pattern, value) => getStrFrom processEntities source (p.drop pattern.length) (out ++ [value])
        -- nothing is written, and the write pointer moves on over what the source has there
        | none => getStrFrom processEntities source p (out ++ source[out.length]?.toList)
    else getStrFrom processEntities source p (out ++ [c])
termination_by p => p.length
decreasing_by
  · exact Nat.lt_succ_of_le (length_behindLineEnd_le _ p)
  · exact Nat.lt_succ_of_le (length_behindLineEnd_le _ p)
  · rename_i hhead href
    have hle := length_getCharacterRef_le href
    have hlength : p.tail.length + 1 = p.length := by
      cases p with
      | nil => cases hhead
      | cons d p => rfl
    rw [hlength] at hle
    exact Nat.lt_succ_of_le hle
  · exact Nat.lt_succ_of_le (List.length_drop ▸ Nat.sub_le _ _)
  · exact Nat.lt_succ_self _
  · exact Nat.lt_succ_self _

/-- `StrPair::GetStr` of a text or of the value of an attribute; what is asked for is read up to a zero. -/
def getStr (processEntities : Bool) (source : Text) : Option Text :=
  (getStrFrom processEntities source source []).map untilZero

end DxApi.Xml
