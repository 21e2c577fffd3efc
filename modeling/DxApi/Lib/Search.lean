import Mathlib.Data.List.Infix

/-!
# Searching a text

The first place of a text at which another one stands, the search of a text of lines (what has no part of
a line break in it stands in one of the lines), and what is between the occurrences in a text, each of them
the first one behind the one before it.
-/

namespace DxApi.Search

variable {α : Type} {needle text line rest : List α} {ofs : ℕ}

/-- `needle` stands at `ofs`, and nowhere before. -/
structure FirstAt (needle text : List α) (ofs : ℕ) : Prop where
  isPrefix : needle <+: text.drop ofs
  first : ∀ i < ofs, ¬ needle <+: text.drop i

theorem FirstAt.unique {ofs' : ℕ} (h : FirstAt needle text ofs) (h' : FirstAt needle text ofs') : ofs = ofs' := by
  rcases Nat.lt_trichotomy ofs ofs' with hlt | heq | hlt
  · exact absurd h.isPrefix (h'.first ofs hlt)
  · exact heq
  · exact absurd h'.isPrefix (h.first ofs' hlt)

/-- The first place of `needle` in the text. -/
def find [DecidableEq α] (needle text : List α) : Option ℕ := text.tails.findIdx? needle.isPrefixOf

theorem find_eq_some_iff [DecidableEq α] : find needle text = some ofs ↔ ofs ≤ text.length ∧ FirstAt needle text ofs := by
  rw [find, List.findIdx?_eq_some_iff_getElem]
  constructor
  · intro h
    obtain ⟨hlt, hhere, hbefore⟩ := h
    rw [List.length_tails] at hlt
    refine ⟨Nat.le_of_lt_succ hlt, ?_, fun i hi hstands ↦ ?_⟩
    · simpa using hhere
    · have hnot := hbefore i hi
      simp [hstands] at hnot
  · intro h
    obtain ⟨hle, hfirst⟩ := h
    have hlt : ofs < text.tails.length := by
      rw [List.length_tails]
      exact Nat.lt_succ_of_le hle
    refine ⟨hlt, by simpa using hfirst.isPrefix, fun i hi ↦ ?_⟩
    simpa using hfirst.first i hi

theorem find_eq_none_iff [DecidableEq α] : find needle text = none ↔ ¬ needle <:+: text := by
  rw [find, List.findIdx?_eq_none_iff, List.infix_iff_prefix_suffix]
  push Not
  constructor
  · intro h t hprefix hsuffix
    have hnot := h t ((List.mem_tails t text).mpr hsuffix)
    rw [List.isPrefixOf_iff_prefix.mpr hprefix] at hnot
    exact Bool.noConfusion hnot
  · intro h t htail
    have hnot : ¬ needle <+: t := fun hprefix ↦ h t hprefix ((List.mem_tails t text).mp htail)
    rw [← List.isPrefixOf_iff_prefix] at hnot
    exact Bool.eq_false_iff.mpr hnot

theorem FirstAt.stands (h : FirstAt needle text ofs) : needle <:+: text :=
  h.isPrefix.isInfix.trans (List.drop_suffix ofs text).isInfix

/-- What does not have the separator stands before it or behind it. -/
theorem infix_separated {separator : α} (hneedle : needle ≠ []) (hnone : separator ∉ needle) :
    needle <:+: line ++ separator :: rest ↔ needle <:+: line ∨ needle <:+: rest := by
  have hstart : ¬ ∃ l₁ l₂, l₁ ≠ [] ∧ l₂ ≠ [] ∧ needle = l₁ ++ l₂ ∧ l₁ <:+ line ∧ l₂ <+: separator :: rest := by
    intro h
    obtain ⟨l₁, l₂, -, hl₂, hsplit, -, hprefix⟩ := h
    obtain ⟨c, l₂, rfl⟩ := List.exists_cons_of_ne_nil hl₂
    obtain ⟨rfl, -⟩ := List.cons_prefix_cons.mp hprefix
    exact hnone (by simp [hsplit])
  have hhead : ¬ needle <+: separator :: rest := by
    intro hprefix
    obtain ⟨c, needle, rfl⟩ := List.exists_cons_of_ne_nil hneedle
    obtain ⟨rfl, -⟩ := List.cons_prefix_cons.mp hprefix
    exact hnone List.mem_cons_self
  rw [List.infix_append_iff_ne_nil, List.infix_cons_iff, or_iff_left hstart, or_iff_right hhead]

/-- The same for a separator of several characters. -/
theorem infix_broken {lineBreak : List α} (hneedle : needle ≠ []) (hbreak : ∀ c ∈ lineBreak, c ∉ needle)
    (hnonempty : lineBreak ≠ []) (line rest : List α) :
    needle <:+: line ++ lineBreak ++ rest ↔ needle <:+: line ∨ needle <:+: rest := by
  induction lineBreak generalizing line with
  | nil => exact absurd rfl hnonempty
  | cons separator lineBreak ih =>
    have hnone := hbreak separator List.mem_cons_self
    rw [List.append_assoc, List.cons_append, infix_separated hneedle hnone]
    cases lineBreak with
    | nil => rw [List.nil_append]
    | cons c lineBreak =>
      have hrest := ih (fun c hc ↦ hbreak c (List.mem_cons_of_mem _ hc)) (List.cons_ne_nil _ _) []
      rw [List.nil_append, List.infix_nil, or_iff_right hneedle] at hrest
      rw [hrest]

/-- What shares nothing with the line breaks stands in one of the lines. -/
theorem infix_lines {lineBreak : List α} (hneedle : needle ≠ []) (hbreak : ∀ c ∈ lineBreak, c ∉ needle)
    (hnonempty : lineBreak ≠ []) (lines : List (List α)) :
    needle <:+: lines.flatMap (· ++ lineBreak) ++ rest ↔
      (∃ line ∈ lines, needle <:+: line) ∨ needle <:+: rest := by
  induction lines with
  | nil => simp
  | cons line lines ih =>
    rw [List.flatMap_cons, List.append_assoc, infix_broken hneedle hbreak hnonempty, ih]
    simp [or_assoc]

/-- Behind lines that do not mention it, the text is found where it stands. -/
theorem firstAt_lines {lineBreak : List α} {lines : List (List α)} (hneedle : needle ≠ [])
    (hbreak : ∀ c ∈ lineBreak, c ∉ needle) (hnonempty : lineBreak ≠ []) (hnone : ∀ line ∈ lines, ¬ needle <:+: line) :
    FirstAt needle (lines.flatMap (· ++ lineBreak) ++ needle ++ rest) (lines.flatMap (· ++ lineBreak)).length := by
  have hpositive := List.length_pos_iff.mpr hneedle
  have hlast : ¬ needle <:+: needle.dropLast := by
    intro hstands
    have hle := hstands.length_le
    rw [List.length_dropLast] at hle
    omega
  have hbefore := (infix_lines hneedle hbreak hnonempty lines).not.mpr (not_or.mpr ⟨by simpa using hnone, hlast⟩)
  generalize lines.flatMap (· ++ lineBreak) = before at *
  constructor
  · rw [List.append_assoc, List.drop_left]
    exact List.prefix_append needle rest
  · intro i hi hstands
    obtain ⟨behind, hbehind⟩ := hstands
    have hsplit : before ++ needle ++ rest = (before ++ needle.dropLast) ++ (needle.getLast hneedle :: rest) := by
      rw [List.append_assoc, List.append_assoc, ← List.singleton_append, ← List.append_assoc needle.dropLast,
        List.dropLast_append_getLast]
    have hlength : i + needle.length ≤ (before ++ needle.dropLast).length := by
      rw [List.length_append, List.length_dropLast]
      omega
    rw [hsplit, List.drop_append_of_le_length (by omega)] at hbehind
    have htake := congrArg (List.take needle.length) hbehind
    rw [List.take_left, List.take_append_of_le_length (by rw [List.length_drop]; omega)] at htake
    have hstarts := List.take_prefix needle.length ((before ++ needle.dropLast).drop i)
    rw [← htake] at hstarts
    exact hbefore (hstarts.isInfix.trans (List.drop_suffix _ _).isInfix)

/-- An occurrence that ends within a text is the first one of any longer text. -/
theorem firstAt_append_iff {more : List α} (h : ofs + needle.length ≤ text.length) :
    FirstAt needle (text ++ more) ofs ↔ FirstAt needle text ofs := by
  have hwithin : ∀ i ≤ ofs, (needle <+: (text ++ more).drop i ↔ needle <+: text.drop i) := by
    intro i hi
    have hlength : needle.length ≤ (text.drop i).length := by
      rw [List.length_drop]
      omega
    rw [List.drop_append_of_le_length (by omega)]
    constructor
    · exact fun hprefix ↦ List.prefix_of_prefix_length_le hprefix (List.prefix_append _ _) hlength
    · exact fun hprefix ↦ hprefix.trans (List.prefix_append _ _)
  constructor
  · exact fun hfirst ↦ ⟨(hwithin ofs le_rfl).mp hfirst.isPrefix, fun i hi hat ↦ hfirst.first i hi ((hwithin i hi.le).mpr hat)⟩
  · exact fun hfirst ↦ ⟨(hwithin ofs le_rfl).mpr hfirst.isPrefix, fun i hi hat ↦ hfirst.first i hi ((hwithin i hi.le).mp hat)⟩

theorem FirstAt.add_length_le (h : FirstAt needle text ofs) (hneedle : needle ≠ []) : ofs + needle.length ≤ text.length := by
  have hlength := h.isPrefix.length_le
  have hpositive := List.length_pos_iff.mpr hneedle
  rw [List.length_drop] at hlength
  omega

theorem find_add_length_le [DecidableEq α] (h : find needle text = some ofs) (hneedle : needle ≠ []) :
    ofs + needle.length ≤ text.length := (find_eq_some_iff.mp h).2.add_length_le hneedle

/-- A text that begins with something else. -/
theorem find_cons_of_not_prefix [DecidableEq α] {c : α} (hnot : ¬needle <+: c :: text) :
    find needle (c :: text) = (find needle text).map (· + 1) := by
  have hhere : needle.isPrefixOf (c :: text) = false := by
    rwa [Bool.eq_false_iff, ne_eq, List.isPrefixOf_iff_prefix]
  rw [find, List.tails_cons, List.findIdx?_cons, hhere]
  rfl

/-! ## Between the occurrences -/

/-- The parts of the text in front of its first occurrence of `needle`, between this one and the first one
behind it, and so on. -/
inductive Gaps (needle : List α) : List α → List (List α) → Prop
  | last {text : List α} (hnone : ¬ needle <:+: text) : Gaps needle text [text]
  | more {gap rest : List α} {gaps : List (List α)} (hfirst : FirstAt needle (gap ++ needle ++ rest) gap.length)
      (hrest : Gaps needle rest gaps) : Gaps needle (gap ++ needle ++ rest) (gap :: gaps)

/-- The text with every occurrence replaced; a text is not searched for nothing. -/
def Replaced (needle replacement text result : List α) : Prop :=
  if needle = [] then result = text else ∃ gaps, Gaps needle text gaps ∧ result = replacement.intercalate gaps

variable {replacement result : List α} {gaps : List (List α)} {c : α}

theorem Gaps.ne_nil (h : Gaps needle text gaps) : gaps ≠ [] := by
  cases h with
  | last hnone => exact List.cons_ne_nil _ _
  | more hfirst hrest => exact List.cons_ne_nil _ _

theorem gaps_nil (hneedle : needle ≠ []) : Gaps needle [] [[]] := .last fun h ↦ hneedle (List.infix_nil.mp h)

/-- The text begins with an occurrence. -/
theorem Gaps.here (h : Gaps needle text gaps) : Gaps needle (needle ++ text) ([] :: gaps) := by
  have hfirst : FirstAt needle ([] ++ needle ++ text) 0 := by
    constructor
    · exact List.prefix_append needle text
    · exact fun i hi ↦ absurd hi (Nat.not_lt_zero i)
  exact .more hfirst h

/-- An occurrence does not begin with the next character. -/
theorem FirstAt.later (h : FirstAt needle text ofs) (hnot : ¬ needle <+: c :: text) : FirstAt needle (c :: text) (ofs + 1) := by
  constructor
  · exact h.isPrefix
  · intro i hi
    cases i with
    | zero => exact hnot
    | succ i => exact h.first i (Nat.lt_of_succ_lt_succ hi)

theorem Gaps.later (h : Gaps needle text gaps) (hnot : ¬ needle <+: c :: text) :
    ∃ gap gaps', gaps = gap :: gaps' ∧ Gaps needle (c :: text) ((c :: gap) :: gaps') := by
  cases h with
  | last hnone =>
    refine ⟨text, [], rfl, .last ?_⟩
    rw [List.infix_cons_iff]
    exact not_or.mpr ⟨hnot, hnone⟩
  | @more gap rest gaps hfirst hrest =>
    exact ⟨gap, gaps, rfl, @Gaps.more _ needle (c :: gap) rest gaps (hfirst.later hnot) hrest⟩

theorem replaced_nil (hneedle : needle ≠ []) : Replaced needle replacement [] [] := by
  rw [Replaced, if_neg hneedle]
  exact ⟨[[]], gaps_nil hneedle, List.intercalate_singleton.symm⟩

/-- The occurrence at the beginning is replaced. -/
theorem Replaced.here (hneedle : needle ≠ []) (h : Replaced needle replacement text result) :
    Replaced needle replacement (needle ++ text) (replacement ++ result) := by
  rw [Replaced, if_neg hneedle] at h ⊢
  obtain ⟨gaps, hgaps, rfl⟩ := h
  exact ⟨[] :: gaps, hgaps.here, by rw [List.intercalate_cons_of_ne_nil hgaps.ne_nil, List.nil_append]⟩

/-- A character that begins no occurrence stays. -/
theorem Replaced.later (hnot : ¬ needle <+: c :: text) (h : Replaced needle replacement text result) :
    Replaced needle replacement (c :: text) (c :: result) := by
  have hneedle : needle ≠ [] := by
    rintro rfl
    exact hnot List.nil_prefix
  rw [Replaced, if_neg hneedle] at h ⊢
  obtain ⟨gaps, hgaps, rfl⟩ := h
  obtain ⟨gap, gaps', rfl, hlater⟩ := hgaps.later hnot
  exact ⟨(c :: gap) :: gaps', hlater, List.intercalate_cons_cons_left.symm⟩

theorem replaced_of_not_infix (hneedle : needle ≠ []) (hnone : ¬ needle <:+: text) :
    Replaced needle replacement text text := by
  rw [Replaced, if_neg hneedle]
  exact ⟨[text], .last hnone, List.intercalate_singleton.symm⟩

/-- The first occurrence is replaced, and then those behind it. -/
theorem Replaced.first (hneedle : needle ≠ []) (hfirst : FirstAt needle (line ++ needle ++ rest) line.length)
    (h : Replaced needle replacement rest result) :
    Replaced needle replacement (line ++ needle ++ rest) (line ++ replacement ++ result) := by
  rw [Replaced, if_neg hneedle] at h ⊢
  obtain ⟨gaps, hgaps, rfl⟩ := h
  exact ⟨line :: gaps, .more hfirst hgaps, (List.intercalate_cons_of_ne_nil hgaps.ne_nil).symm⟩

end DxApi.Search
