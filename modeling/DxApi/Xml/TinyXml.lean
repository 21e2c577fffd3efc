import DxApi.Xml.StrPair

/-!
# The XML parser

`XMLDocument::Parse` reads a text into a tree of nodes. An element reads its own content up to an end tag and
hands the name in this tag back to the caller, which compares it with the name of the element. The texts
of the nodes stay as they are in the source until they are asked for; while it is parsed, that is done for the
value of an attribute whose name comes again.
-/

namespace DxApi.Xml

open Net Request CString

/-! ## The source -/

/-- The errors of `XMLError` that `Parse` sets; `nullRead` is no error of the source but a read through `NULL`. -/
inductive XMLError
  | emptyDocument
  | parsing
  | mismatchedElement
  | parsingElement
  | parsingAttribute
  | parsingText
  | parsingCData
  | parsingComment
  | parsingDeclaration
  | parsingUnknown
  | nullRead
  deriving DecidableEq, Repr

/-- A node, with its texts as they stand in the source. -/
inductive XMLNode
  | element (name : Text) (attributes : List (Text × Text)) (children : List XMLNode)
  | text (value : Text) (cdata : Bool)
  | comment (value : Text)
  | declaration (value : Text)
  | unknown (value : Text)

/-- `XMLAttribute::ParseDeep`. -/
def parseAttribute (p : Text) : Option ((Text × Text) × Text) :=
  match parseName p with
  | ([], _) => none
  | (name, p) =>
    match skipWhiteSpace p with
    | [] => none
    | equals :: p =>
      if equals = 0x3D then
        match skipWhiteSpace p with
        | [] => none
        | quote :: p =>
          if quote = 0x22 ∨ quote = 0x27 then (parseText [quote] p).map fun (value, rest) ↦ ((name, value), rest)
          else none
      else none

theorem length_parseAttribute_lt {p rest : Text} {found : Text × Text}
    (h : parseAttribute p = some (found, rest)) : rest.length < p.length := by
  have hname := length_parseName_le p
  rw [parseAttribute] at h
  split at h
  · cases h
  · rename_i name p₁ _ hparsed
    rw [hparsed] at hname
    have hskip := length_skipWhiteSpace_le p₁
    split at h
    · cases h
    · rename_i equals p₂ hequals
      have hskip' := length_skipWhiteSpace_le p₂
      rw [hequals] at hskip
      split at h
      · split at h
        · cases h
        · rename_i quote p₃ hquote
          rw [hquote] at hskip'
          split at h
          · obtain ⟨⟨value, rest'⟩, hvalue, heq⟩ := Option.map_eq_some_iff.mp h
            cases heq
            rw [eq_of_parseText hvalue] at hskip'
            simp only [List.length_cons, List.length_append] at hskip hskip' hname
            omega
          · cases h
      · cases h

/-- `XMLElement::ClosingType`. -/
inductive ClosingType
  | openTag
  | closed
  | closing
  deriving DecidableEq, Repr

/-- The result of `XMLElement::ParseAttributes`: the attributes, whether `/>` ends the tag, and what stands
behind it. -/
abbrev TagEnd := List (Text × Text) × Bool × Text

/-- `XMLElement::ParseAttributes`, behind some attributes. -/
def parseAttributes (p : Text) (attributes : List (Text × Text)) : Except XMLError TagEnd :=
  match _ : skipWhiteSpace p with
  | [] => .error .parsingElement
  | c :: p' =>
    if isNameStartChar c then
      match _ : parseAttribute (c :: p') with
      | none => .error .parsingAttribute
      | some (found, rest) =>
        match attributes.lookup found.1 with
        | none => parseAttributes rest (attributes ++ [found])
        -- `Attribute` asks for the value that is there
        | some value => .error (if getStr true value = none then .nullRead else .parsingAttribute)
    else if c = 0x2F ∧ p'.head? = some 0x3E then .ok (attributes, true, p'.tail)
    else if c = 0x3E then .ok (attributes, false, p')
    else .error .parsingElement
termination_by p.length
decreasing_by
  rename_i hskip _ hattribute
  have hlt := length_parseAttribute_lt hattribute
  have hle := length_skipWhiteSpace_le p
  rw [hskip] at hle
  exact Nat.lt_of_lt_of_le hlt hle

/-- A tag of an element. -/
structure Tag where
  name : Text
  attributes : List (Text × Text)
  closingType : ClosingType
  deriving DecidableEq

/-- The part of `XMLElement::ParseDeep` that reads a tag, behind its first character. -/
def parseTag (p : Text) : Except XMLError (Tag × Text) :=
  let p := skipWhiteSpace p
  let closing : Bool := p.head? = some 0x2F
  match parseName (if closing then p.tail else p) with
  | ([], _) => .error .parsing
  | (name, p) =>
    match parseAttributes p [] with
    | .error error => .error error
    | .ok (attributes, true, rest) => .ok (⟨name, attributes, .closed⟩, rest)
    | .ok (attributes, false, rest) => .ok (⟨name, attributes, if closing then .closing else .openTag⟩, rest)

/-- What `XMLDocument::Identify` finds: the kind of the node, and where its text begins. -/
inductive Identified
  | nothing
  | declaration (p : Text)
  | comment (p : Text)
  | cdata (p : Text)
  | unknown (p : Text)
  | element (p : Text)
  | text (p : Text)
  deriving DecidableEq

/-- `XMLDocument::Identify`. -/
def identify (start : Text) : Identified :=
  let p := skipWhiteSpace start
  if p = [] then .nothing
  else if text "<?" <+: p then .declaration (p.drop 2)
  else if text "<!--" <+: p then .comment (p.drop 4)
  else if text "<![CDATA[" <+: p then .cdata (p.drop 9)
  else if text "<!" <+: p then .unknown (p.drop 2)
  else if text "<" <+: p then .element (p.drop 1)
  else .text start

/-- How `XMLNode::ParseDeep` ends: at an end tag, at the end of the text, or with an error; `deeper` is no
result of the source. -/
inductive Siblings
  | closed (children : List XMLNode) (endTag : Text) (rest : Text)
  | ended (children : List XMLNode)
  | failed (error : XMLError)
  | deeper

/-- `InsertEndChild`, of a node in front of those that are read later. -/
def Siblings.insert (node : XMLNode) : Siblings → Siblings
  | closed children endTag rest => closed (node :: children) endTag rest
  | ended children => ended (node :: children)
  | failed error => failed error
  | deeper => deeper

/-- What follows a node that is all text up to an end tag. -/
def afterText (parsed : Option (Text × Text)) (error : XMLError) (node : Text → XMLNode) (later : Text → Siblings) :
    Siblings :=
  match parsed with
  | none => .failed error
  | some (value, rest) => (later rest).insert (node value)

/-- `XMLNode::ParseDeep`, with the calls that it makes; the calls are as many as the first argument at most. -/
def parseDeep : ℕ → Text → Siblings
  | 0, _ => .deeper
  | fuel + 1, start =>
    match identify start with
    | .nothing => .ended []
    | .declaration p => afterText (parseText (text "?>") p) .parsingDeclaration .declaration (parseDeep fuel)
    | .comment p => afterText (parseText (text "-->") p) .parsingComment .comment (parseDeep fuel)
    | .cdata p => afterText (parseText (text "]]>") p) .parsingCData (.text · true) (parseDeep fuel)
    | .unknown p => afterText (parseText (text ">") p) .parsingUnknown .unknown (parseDeep fuel)
    | .text p =>
      match parseText (text "<") p with
      | none => .failed .parsingText
      -- the text goes on to the last character
      | some (_, []) => .failed .parsing
      | some (value, rest) => (parseDeep fuel (0x3C :: rest)).insert (.text value false)
    | .element p =>
      match parseTag p with
      | .error error => .failed error
      | .ok (⟨name, attributes, .closed⟩, rest) => (parseDeep fuel rest).insert (.element name attributes [])
      | .ok (⟨name, _, .closing⟩, rest) => .closed [] name rest
      | .ok (⟨_, _, .openTag⟩, []) => .failed .mismatchedElement
      | .ok (⟨name, attributes, .openTag⟩, rest) =>
        match parseDeep fuel rest with
        | .closed children endTag rest =>
          if endTag = name then (parseDeep fuel rest).insert (.element name attributes children)
          else .failed .mismatchedElement
        | .ended _ => .failed .parsing
        | .failed error => .failed error
        | .deeper => .deeper

/-- `XMLUtil::ReadBOM`. -/
def readBOM (p : Text) : Text := if [0xEF, 0xBB, 0xBF] <+: p then p.drop 3 else p

/-- `XMLDocument::Parse`: the children of the document. -/
def parse (data : Text) : Except XMLError (List XMLNode) :=
  let p := readBOM (skipWhiteSpace (untilZero data))
  if p = [] then .error .emptyDocument
  else
    match parseDeep (p.length + 1) p with
    | .closed children _ _ => .ok children
    | .ended children => .ok children
    | .failed error => .error error
    | .deeper => .error .parsing

/-! ## Every text is parsed -/

theorem length_drop_lt {p start : Text} {count : ℕ} (hp : p ≠ []) (hle : p.length ≤ start.length) (hcount : 0 < count) :
    (p.drop count).length < start.length := by
  have hpos := List.length_pos_iff.mpr hp
  rw [List.length_drop]
  omega

/-- What `identify` leaves of the text: all of it for a text, and less for every other node. -/
theorem length_identify {start : Text} :
    match identify start with
    | .nothing => True
    | .declaration p | .comment p | .cdata p | .unknown p | .element p => p.length < start.length
    | .text p => p = start := by
  have hle := length_skipWhiteSpace_le start
  have hdrop {count : ℕ} (hp : skipWhiteSpace start ≠ []) (hcount : 0 < count) := length_drop_lt hp hle hcount
  rw [identify]
  split_ifs with hempty
  · trivial
  · exact hdrop hempty (by decide)
  · exact hdrop hempty (by decide)
  · exact hdrop hempty (by decide)
  · exact hdrop hempty (by decide)
  · exact hdrop hempty (by decide)
  · rfl

theorem length_parseAttributes_lt {p : Text} {attributes : List (Text × Text)} {tagEnd : TagEnd}
    (h : parseAttributes p attributes = .ok tagEnd) : tagEnd.2.2.length < p.length := by
  have hle (p : Text) {c : UInt8} {p' : Text} (hskip : skipWhiteSpace p = c :: p') : p'.length < p.length := by
    have hle := length_skipWhiteSpace_le p
    rw [hskip] at hle
    exact hle
  fun_induction parseAttributes p attributes with
  | case1 => cases h
  | case2 => cases h
  | case3 p attributes c p' hskip _ found rest hattribute _ ih =>
    have hrest := length_parseAttribute_lt hattribute
    have hskip' := length_skipWhiteSpace_le p
    rw [hskip] at hskip'
    exact (ih h).trans (hrest.trans_le hskip')
  | case4 => cases h
  | case5 p attributes c p' hskip _ hclosed =>
    cases h
    exact (List.tail_sublist p').length_le.trans_lt (hle p hskip)
  | case6 p attributes p' hskip =>
    cases h
    exact hle p hskip
  | case7 => cases h

theorem length_parseTag_lt {p rest : Text} {tag : Tag} (h : parseTag p = .ok (tag, rest)) :
    rest.length < p.length := by
  have hskip := length_skipWhiteSpace_le p
  have htail := (List.tail_sublist (skipWhiteSpace p)).length_le
  rw [parseTag] at h
  generalize hstart : (if decide ((skipWhiteSpace p).head? = some 0x2F) = true then (skipWhiteSpace p).tail
    else skipWhiteSpace p) = start at h
  have hle : start.length ≤ p.length := by
    rw [← hstart]
    split
    · exact htail.trans hskip
    · exact hskip
  have hname := length_parseName_le start
  split at h
  · cases h
  · rename_i name p' _ hparsed
    rw [hparsed] at hname
    split at h
    · cases h
    · rename_i hattributes
      cases h
      exact ((length_parseAttributes_lt hattributes).trans_le hname).trans_le hle
    · rename_i hattributes
      cases h
      exact ((length_parseAttributes_lt hattributes).trans_le hname).trans_le hle

/-- A text that `identify` takes for one does not begin with an angle bracket. -/
theorem head_of_identify {start p : Text} (h : identify start = .text p) : start.head? ≠ some 0x3C := by
  intro hhead
  obtain ⟨rest, rfl⟩ : ∃ rest, start = 0x3C :: rest := by
    cases start with
    | nil => cases hhead
    | cons c rest => exact ⟨rest, congrArg (· :: rest) (Option.some.inj hhead)⟩
  have hskip : skipWhiteSpace (0x3C :: rest) = 0x3C :: rest := rfl
  rw [identify, hskip] at h
  have hbracket : text "<" <+: 0x3C :: rest := ⟨rest, rfl⟩
  split_ifs at h

/-- The recursion has not run out of its argument, and an end tag leaves less of the text. -/
def Siblings.Within (length : ℕ) : Siblings → Prop
  | closed _ _ rest => rest.length < length
  | ended _ => True
  | failed _ => True
  | deeper => False

theorem Siblings.Within.insert {siblings : Siblings} {length length' : ℕ} (h : siblings.Within length)
    (hle : length ≤ length') (node : XMLNode) : (siblings.insert node).Within length' := by
  cases siblings with
  | closed children endTag rest => exact Nat.lt_of_lt_of_le h hle
  | ended children => exact trivial
  | failed error => exact trivial
  | deeper => exact h.elim

theorem within_afterText {endTag p : Text} {error : XMLError} {node : Text → XMLNode} {later : Text → Siblings}
    {length : ℕ} (hp : p.length < length)
    (hlater : ∀ rest : Text, rest.length < length → (later rest).Within rest.length) :
    (afterText (parseText endTag p) error node later).Within length := by
  cases hparsed : parseText endTag p with
  | none => exact trivial
  | some found =>
    have heq := eq_of_parseText hparsed
    have hle : found.2.length < length := by
      rw [heq, List.length_append, List.length_append] at hp
      omega
    exact (hlater found.2 hle).insert hle.le _

/-- Calls as many as there are bytes are enough. -/
theorem within_parseDeep {fuel : ℕ} {start : Text} (h : start.length < fuel) :
    (parseDeep fuel start).Within start.length := by
  induction fuel generalizing start with
  | zero => exact absurd h (Nat.not_lt_zero _)
  | succ fuel ih =>
    have hlength := @length_identify start
    have hlater (rest : Text) (hrest : rest.length < start.length) : (parseDeep fuel rest).Within rest.length :=
      ih (by omega)
    rw [parseDeep]
    cases hfound : identify start with
    | nothing => exact trivial
    | declaration p =>
      rw [hfound] at hlength
      exact within_afterText hlength hlater
    | comment p =>
      rw [hfound] at hlength
      exact within_afterText hlength hlater
    | cdata p =>
      rw [hfound] at hlength
      exact within_afterText hlength hlater
    | unknown p =>
      rw [hfound] at hlength
      exact within_afterText hlength hlater
    | text p =>
      rw [hfound] at hlength
      have hhead := head_of_identify hfound
      dsimp only at hlength ⊢
      rw [hlength]
      split
      · exact trivial
      · exact trivial
      · rename_i value rest _ hparsed
        have heq := eq_of_parseText hparsed
        have hvalue : 0 < value.length := by
          apply List.length_pos_iff.mpr
          intro hnil
          rw [heq, hnil] at hhead
          exact hhead rfl
        have hrest : (0x3C :: rest : Text).length < start.length := by
          have hsum := congrArg List.length heq
          rw [List.length_append, List.length_append] at hsum
          change start.length = value.length + (1 + rest.length) at hsum
          rw [List.length_cons]
          omega
        exact (hlater _ hrest).insert hrest.le _
    | element p =>
      rw [hfound] at hlength
      dsimp only at hlength ⊢
      split
      · exact trivial
      · rename_i hparsed
        have hrest := (length_parseTag_lt hparsed).trans hlength
        exact (hlater _ hrest).insert hrest.le _
      · rename_i hparsed
        exact (length_parseTag_lt hparsed).trans hlength
      · exact trivial
      · rename_i name attributes rest _ hparsed
        have hrest := (length_parseTag_lt hparsed).trans hlength
        have hchildren := hlater _ hrest
        cases hdeep : parseDeep fuel rest with
        | closed children endTag rest' =>
          rw [hdeep] at hchildren
          have hrest' : rest'.length < start.length := Nat.lt_trans hchildren hrest
          dsimp only
          split
          · exact (hlater _ hrest').insert hrest'.le _
          · exact trivial
        | ended children => exact trivial
        | failed error => exact trivial
        | deeper =>
          rw [hdeep] at hchildren
          exact hchildren.elim

end DxApi.Xml
