import DxApi.Lib.CString
import DxApi.Net.Request

/-!
# Escaped text

`addChars` writes a text with entities for the five characters that have a meaning in XML. `unescape`
looks for the name of an entity behind every ampersand, and leaves an ampersand alone that begins none.
-/

namespace DxApi.Xml

open Net.Request

/-! ## The source -/

def addChar (out : List UInt8) (c : UInt8) : List UInt8 :=
  if c = 0x26 then out ++ text "&amp;"
  else if c = 0x22 then out ++ text "&quot;"
  else if c = 0x27 then out ++ text "&apos;"
  else if c = 0x3C then out ++ text "&lt;"
  else if c = 0x3E then out ++ text "&gt;"
  else out ++ [c]

/-- `XmlOutput::addChars`, on what was written before. -/
def addChars (out src : List UInt8) : List UInt8 := src.foldl addChar out

/-- The character that is written for `c`, with what follows `r`, and what is left of `r`. -/
def readChar (c : UInt8) (r : List UInt8) : UInt8 × List UInt8 :=
  if c = 0x26 then
    if text "amp;" <+: r then (c, r.drop 4)
    else if text "quot;" <+: r then (0x22, r.drop 5)
    else if text "apos;" <+: r then (0x27, r.drop 5)
    else if text "lt;" <+: r then (0x3C, r.drop 3)
    else if text "gt;" <+: r then (0x3E, r.drop 3)
    else (c, r)
  else (c, r)

theorem length_readChar_le (c : UInt8) (r : List UInt8) : (readChar c r).2.length ≤ r.length := by
  rw [readChar]
  split_ifs <;> simp

/-- `XmlParse::unescape`. -/
def unescape : List UInt8 → List UInt8
  | [] => []
  | c :: r => if c = 0 then [] else (readChar c r).1 :: unescape (readChar c r).2
termination_by src => src.length
decreasing_by exact Nat.lt_succ_of_le (length_readChar_le c r)

/-! ## What is written -/

/-- What is written for a character. -/
def escaped (c : UInt8) : List UInt8 := addChar [] c

/-- The five entities. -/
def entities : List (List UInt8) := ["&amp;", "&quot;", "&apos;", "&lt;", "&gt;"].map text

/-- The characters that are not written as they are, besides the ampersand. -/
def markup : List UInt8 := [0x3C, 0x3E, 0x22, 0x27]

variable {c : UInt8} {out src rest : List UInt8}

theorem addChar_eq (out : List UInt8) (c : UInt8) : addChar out c = out ++ escaped c := by
  rw [escaped, addChar, addChar]
  split_ifs <;> rfl

theorem addChars_eq (out src : List UInt8) : addChars out src = out ++ src.flatMap escaped := by
  induction src generalizing out with
  | nil => rw [addChars, List.foldl_nil, List.flatMap_nil, List.append_nil]
  | cons c src ih =>
    calc
      addChars out (c :: src) = addChars (addChar out c) src := rfl
      _ = out ++ escaped c ++ src.flatMap escaped := by rw [ih, addChar_eq]
      _ = out ++ (c :: src).flatMap escaped := by rw [List.flatMap_cons, List.append_assoc]

/-- A character is written as an entity, or as itself. -/
theorem escaped_cases (c : UInt8) :
    (c = 0x26 ∧ escaped c = text "&amp;") ∨ (c = 0x22 ∧ escaped c = text "&quot;") ∨
    (c = 0x27 ∧ escaped c = text "&apos;") ∨ (c = 0x3C ∧ escaped c = text "&lt;") ∨
    (c = 0x3E ∧ escaped c = text "&gt;") ∨
    (c ≠ 0x26 ∧ c ∉ markup ∧ escaped c = [c]) := by
  rw [escaped, addChar]
  split_ifs with hamp hquot hapos hlt hgt
  · exact .inl ⟨hamp, rfl⟩
  · exact .inr (.inl ⟨hquot, rfl⟩)
  · exact .inr (.inr (.inl ⟨hapos, rfl⟩))
  · exact .inr (.inr (.inr (.inl ⟨hlt, rfl⟩)))
  · exact .inr (.inr (.inr (.inr (.inl ⟨hgt, rfl⟩))))
  · refine .inr (.inr (.inr (.inr (.inr ⟨hamp, ?_, rfl⟩))))
    simp [markup, hquot, hapos, hlt, hgt]

/-! ## The round trip -/

/-- What is written for a character is read as this character, whatever follows. -/
theorem unescape_escaped (hc : c ≠ 0) (rest : List UInt8) : unescape (escaped c ++ rest) = c :: unescape rest := by
  rcases escaped_cases c with ⟨rfl, h⟩ | ⟨rfl, h⟩ | ⟨rfl, h⟩ | ⟨rfl, h⟩ | ⟨rfl, h⟩ | ⟨hamp, -, h⟩
  · rw [h]
    simp [text, unescape, readChar]
  · rw [h]
    simp [text, unescape, readChar]
  · rw [h]
    simp [text, unescape, readChar]
  · rw [h]
    simp [text, unescape, readChar]
  · rw [h]
    simp [text, unescape, readChar]
  · rw [h, List.singleton_append, unescape, if_neg hc, readChar, if_neg hamp]

theorem unescape_flatMap (hsrc : 0 ∉ src) : unescape (src.flatMap escaped) = src := by
  induction src with
  | nil => rw [List.flatMap_nil, unescape]
  | cons c src ih =>
    have hc : c ≠ 0 := fun hzero ↦ hsrc (hzero ▸ List.mem_cons_self)
    have hlater : 0 ∉ src := fun hzero ↦ hsrc (List.mem_cons_of_mem c hzero)
    rw [List.flatMap_cons, unescape_escaped hc, ih hlater]

/-! ## What the output is made of -/

/-- No character of the markup stands in the text, and every ampersand of it begins an entity. -/
structure WellEscaped (out : List UInt8) : Prop where
  noMarkup : ∀ c ∈ out, c ∉ markup
  startsEntity : ∀ before after, out = before ++ 0x26 :: after → ∃ entity ∈ entities, entity <+: 0x26 :: after

theorem wellEscaped_nil : WellEscaped [] := by
  constructor
  · exact fun c hc ↦ absurd hc List.not_mem_nil
  · intro before after hsplit
    exact absurd hsplit.symm (List.append_ne_nil_of_right_ne_nil _ (List.cons_ne_nil _ _))

theorem WellEscaped.append {later : List UInt8} (h : WellEscaped out) (h' : WellEscaped later) :
    WellEscaped (out ++ later) := by
  constructor
  · intro c hc
    rcases List.mem_append.mp hc with hc | hc
    · exact h.noMarkup c hc
    · exact h'.noMarkup c hc
  · intro before after hsplit
    rcases List.append_eq_append_iff.mp hsplit with ⟨middle, -, hlater⟩ | ⟨middle, hout, hlater⟩
    · exact h'.startsEntity middle after hlater
    · cases middle with
      | nil => exact h'.startsEntity [] after hlater.symm
      | cons c middle =>
        obtain ⟨rfl, rfl⟩ := List.cons.inj hlater
        obtain ⟨entity, hentity, hprefix⟩ := h.startsEntity before middle hout
        exact ⟨entity, hentity, hprefix.trans (List.prefix_append (0x26 :: middle) later)⟩

/-- An entity has its ampersand at its beginning only. -/
theorem wellEscaped_entity {entity : List UInt8} (h : entity ∈ entities) : WellEscaped entity := by
  have hparts : ∀ entity ∈ entities,
      entity.head? = some 0x26 ∧ 0x26 ∉ entity.tail ∧ ∀ c ∈ entity, c ∉ markup := by decide +kernel
  obtain ⟨hhead, htail, hmarkup⟩ := hparts entity h
  refine ⟨hmarkup, ?_⟩
  intro before after hsplit
  cases before with
  | nil =>
    rw [List.nil_append] at hsplit
    exact ⟨entity, h, hsplit ▸ List.prefix_rfl⟩
  | cons c before =>
    rw [hsplit] at htail
    simp at htail

theorem wellEscaped_escaped (c : UInt8) : WellEscaped (escaped c) := by
  have hentity : escaped c ∈ entities ∨ (c ≠ 0x26 ∧ c ∉ markup ∧ escaped c = [c]) := by
    rcases escaped_cases c with ⟨-, h⟩ | ⟨-, h⟩ | ⟨-, h⟩ | ⟨-, h⟩ | ⟨-, h⟩ | h
    · exact .inl (by simp [h, entities])
    · exact .inl (by simp [h, entities])
    · exact .inl (by simp [h, entities])
    · exact .inl (by simp [h, entities])
    · exact .inl (by simp [h, entities])
    · exact .inr h
  rcases hentity with hentity | ⟨hamp, hmarkup, h⟩
  · exact wellEscaped_entity hentity
  · rw [h]
    constructor
    · intro d hd
      rwa [List.mem_singleton.mp hd]
    · intro before after hsplit
      have hmem : 0x26 ∈ [c] := hsplit ▸ List.mem_append_right before List.mem_cons_self
      exact absurd (List.mem_singleton.mp hmem).symm hamp

theorem wellEscaped_addChars (h : WellEscaped out) (src : List UInt8) : WellEscaped (addChars out src) := by
  induction src generalizing out with
  | nil => exact h
  | cons c src ih =>
    have hnext : WellEscaped (addChar out c) := by
      rw [addChar_eq]
      exact h.append (wellEscaped_escaped c)
    exact ih hnext

/-- What is written for a text is well escaped, and is read as this text. -/
theorem unescape_addChars (s : CString) :
    unescape (addChars [] s.bytes) = s.bytes ∧ WellEscaped (addChars [] s.bytes) := by
  constructor
  · rw [addChars_eq, List.nil_append]
    exact unescape_flatMap s.nonzero
  · exact wellEscaped_addChars wellEscaped_nil s.bytes

/-- A text that looks like an entity is read back too. -/
example : addChars [] (text "&lt;") = text "&amp;lt;" := by decide +kernel

end DxApi.Xml
