import DxApi.Xml.Escaping
import DxApi.Xml.TinyXml

/-!
# The texts of nodes

The elements of a document with all their texts, as `GetStr` gives them when they are asked for, and
what it gives for a text that was escaped: the text itself, with its line ends as line feeds.
-/

namespace DxApi.Xml

open Net Request CString

/-! ## The elements of a tree -/

/-- `GetText`, of an element with these children; `none` is a read through `NULL`. -/
def firstText : List XMLNode → Option (Option Text)
  | .text value cdata :: _ => (getStr (!cdata) value).map some
  | _ => some none

mutual

/-- The element that a node is, if it is one, with all its texts. -/
def XMLNode.elements : XMLNode → Option (List XMLElement)
  | .element name attributes children => do
    let attributes ← attributes.mapM fun (name, value) ↦ (getStr true value).map (name, ·)
    let text ← firstText children
    let children ← elementsOf children
    return [.mk name attributes text children]
  | _ => some []

def elementsOf : List XMLNode → Option (List XMLElement)
  | [] => some []
  | node :: nodes => do
    let first ← node.elements
    let later ← elementsOf nodes
    return first ++ later

end

/-! ## Texts that were escaped -/

/-- What becomes of the line ends of a text. -/
def normalizeLineEnds : Text → Text
  | [] => []
  | c :: p =>
    if c = 0x0D then 0x0A :: normalizeLineEnds (behindLineEnd 0x0A p)
    else if c = 0x0A then 0x0A :: normalizeLineEnds (behindLineEnd 0x0D p)
    else c :: normalizeLineEnds p
termination_by p => p.length
decreasing_by
  · exact Nat.lt_succ_of_le (length_behindLineEnd_le _ p)
  · exact Nat.lt_succ_of_le (length_behindLineEnd_le _ p)
  · exact Nat.lt_succ_self _

def escapedText (p : Text) : Text := p.flatMap escaped

variable {p source out : Text} {c : UInt8}

theorem escapedText_cons (c : UInt8) (p : Text) : escapedText (c :: p) = escaped c ++ escapedText p := List.flatMap_cons

theorem escaped_of_plain (h : c ∉ 0x26 :: markup) : escaped c = [c] := by
  obtain ⟨hamp, hmarkup⟩ : c ≠ 0x26 ∧ c ∉ markup := not_or.mp (mt List.mem_cons.mpr h)
  rcases escaped_cases c with ⟨h, -⟩ | ⟨rfl, -⟩ | ⟨rfl, -⟩ | ⟨rfl, -⟩ | ⟨rfl, -⟩ | ⟨-, -, h⟩
  · exact absurd h hamp
  · exact absurd (by decide) hmarkup
  · exact absurd (by decide) hmarkup
  · exact absurd (by decide) hmarkup
  · exact absurd (by decide) hmarkup
  · exact h

/-- A character with a meaning in XML is written as an entity of the table. -/
theorem escaped_of_special (h : c ∈ 0x26 :: markup) : ∃ pattern, (pattern, c) ∈ entityTable ∧ escaped c = 0x26 :: pattern := by
  have hall : ∀ c ∈ 0x26 :: markup, ∃ entity ∈ entityTable, entity.2 = c ∧ escaped c = 0x26 :: entity.1 := by
    decide +kernel
  obtain ⟨⟨pattern, _⟩, hmem, rfl, hescaped⟩ := hall c h
  exact ⟨pattern, hmem, hescaped⟩

/-- An escaped text begins with a line end if the text does. -/
theorem head?_escapedText (hc : c = 0x0A ∨ c = 0x0D) (p : Text) : (escapedText p).head? = some c ↔ p.head? = some c := by
  cases p with
  | nil => exact Iff.rfl
  | cons d p =>
    rw [escapedText_cons]
    by_cases hd : d ∈ 0x26 :: markup
    · obtain ⟨pattern, -, hescaped⟩ := escaped_of_special hd
      rw [hescaped]
      apply iff_of_false
      · intro heq
        cases hc with
        | inl hc =>
          rw [hc] at heq
          cases heq
        | inr hc =>
          rw [hc] at heq
          cases heq
      · intro heq
        cases heq
        rcases hc with rfl | rfl
        · exact absurd hd (by decide)
        · exact absurd hd (by decide)
    · rw [escaped_of_plain hd]
      exact Iff.rfl

theorem escapedText_tail (h : p.head? = some c) (hc : c = 0x0A ∨ c = 0x0D) : escapedText p.tail = (escapedText p).tail := by
  cases p with
  | nil => cases h
  | cons d p =>
    cases h
    rcases hc with rfl | rfl <;> rfl

theorem behindLineEnd_escapedText (hc : c = 0x0A ∨ c = 0x0D) (p : Text) :
    behindLineEnd c (escapedText p) = escapedText (behindLineEnd c p) := by
  rw [behindLineEnd, behindLineEnd]
  by_cases hhead : p.head? = some c
  · rw [if_pos ((head?_escapedText hc p).mpr hhead), if_pos hhead, escapedText_tail hhead hc]
  · rw [if_neg (mt (head?_escapedText hc p).mp hhead), if_neg hhead]

/-- The entity that was written is the first one of the table that fits. -/
theorem find_entityTable {pattern : Text} (h : (pattern, c) ∈ entityTable) (rest : Text) :
    (pattern ++ rest).head? ≠ some 0x23 ∧
      entityTable.find? (fun entity ↦ entity.1 <+: pattern ++ rest) = some (pattern, c) := by
  simp only [entityTable, List.mem_cons, List.not_mem_nil, or_false] at h
  rcases h with h | h | h | h | h <;> cases h <;> simp [entityTable, text]

theorem getStrFrom_escapedText (source p out : Text) :
    getStrFrom true source (escapedText p) out = some (out ++ normalizeLineEnds p) := by
  fun_induction normalizeLineEnds p generalizing out with
  | case1 =>
    rw [escapedText, List.flatMap_nil, getStrFrom, List.append_nil]
  | case2 p ih =>
    rw [escapedText_cons, escaped_of_plain (by decide), List.singleton_append, getStrFrom, if_pos rfl,
      behindLineEnd_escapedText (.inl rfl), ih, List.append_assoc]
    rfl
  | case3 p hcr ih =>
    rw [escapedText_cons, escaped_of_plain (by decide), List.singleton_append, getStrFrom, if_neg (by decide),
      if_pos rfl, behindLineEnd_escapedText (.inr rfl), ih, List.append_assoc]
    rfl
  | case4 c p hcr hlf ih =>
    rw [escapedText_cons]
    by_cases hspecial : c ∈ 0x26 :: markup
    · obtain ⟨pattern, hmem, hescaped⟩ := escaped_of_special hspecial
      obtain ⟨hhead, hfind⟩ := find_entityTable hmem (escapedText p)
      rw [hescaped, List.cons_append, getStrFrom, if_neg (by decide), if_neg (by decide), if_pos ⟨rfl, rfl⟩,
        if_neg hhead, hfind]
      dsimp only
      rw [List.drop_left, ih, List.append_assoc]
      rfl
    · have hamp : c ≠ 0x26 := fun heq ↦ hspecial (heq ▸ List.mem_cons_self)
      rw [escaped_of_plain hspecial, List.singleton_append, getStrFrom, if_neg hcr, if_neg hlf,
        if_neg fun h ↦ hamp h.2, ih, List.append_assoc]
      rfl

theorem zero_not_mem_normalizeLineEnds (h : 0 ∉ p) : 0 ∉ normalizeLineEnds p := by
  have hbehind (second : UInt8) (p : Text) (h : 0 ∉ p) : 0 ∉ behindLineEnd second p := by
    rw [behindLineEnd]
    split
    · exact fun hmem ↦ h (List.mem_of_mem_tail hmem)
    · exact h
  fun_induction normalizeLineEnds p with
  | case1 => exact List.not_mem_nil
  | case2 p ih =>
    rw [List.mem_cons, not_or] at h ⊢
    exact ⟨by decide, ih (hbehind _ p h.2)⟩
  | case3 p hcr ih =>
    rw [List.mem_cons, not_or] at h ⊢
    exact ⟨by decide, ih (hbehind _ p h.2)⟩
  | case4 c p hcr hlf ih =>
    rw [List.mem_cons, not_or] at h ⊢
    exact ⟨h.1, ih h.2⟩

/-- A text that was escaped is given back with line feeds for its line ends. -/
theorem getStr_escapedText (h : 0 ∉ p) : getStr true (escapedText p) = some (normalizeLineEnds p) := by
  have hzero := untilZero_append (zero_not_mem_normalizeLineEnds h) []
  rw [List.append_nil, untilZero_nil, List.append_nil] at hzero
  rw [getStr, getStrFrom_escapedText, List.nil_append, Option.map_some, hzero]

end DxApi.Xml
