import DxApi.Xml.NodeText

/-!
# Written elements

What a request writes is text and elements inside one another. Whatever stands in the texts, the parser
finds these elements again: text between two tags that is not blank becomes a node of its own, and blank text
is dropped.
-/

namespace DxApi.Xml

open Net Request CString

/-! ## Items -/

def validName : Text → Bool
  | [] => false
  | c :: name => isNameStartChar c && name.all isNameChar

/-- The name of an element or of an attribute. -/
abbrev TagName := { name : Text // validName name = true }

/-- Text, or an element with what stands in it. -/
inductive Item
  | chars (s : CString)
  | element (name : TagName) (items : List Item)

/-- `XmlOutput::openTag`. -/
def openTag (name : Text) : Text := 0x3C :: name ++ [0x3E]

/-- `XmlOutput::closeTag`. -/
def closeTag (name : Text) : Text := 0x3C :: 0x2F :: name ++ [0x3E]

mutual

def Item.render : Item → Text
  | .chars s => escapedText s.bytes
  | .element name items => openTag name.1 ++ renderItems items ++ closeTag name.1

def renderItems : List Item → Text
  | [] => []
  | item :: items => item.render ++ renderItems items

end

/-! ## The nodes that are read -/

def isBlankText (p : Text) : Bool := p.all isspace

/-- The node of the text between two tags, if there is one. -/
def flush (pending : Text) : List XMLNode := if isBlankText pending then [] else [.text pending false]

/-- The nodes of some items behind text that was not ended by a tag. -/
def nodesFrom : Text → List Item → List XMLNode
  | pending, [] => flush pending
  | pending, .chars s :: items => nodesFrom (pending ++ escapedText s.bytes) items
  | pending, .element name inner :: items => flush pending ++ .element name.1 [] (nodesFrom [] inner) :: nodesFrom [] items

/-! ## One tag -/

variable {name p rest pending : Text} {c : UInt8}

theorem parseName_append (hname : validName name = true) (hc : ¬ isNameChar c = true) (rest : Text) :
    parseName (name ++ c :: rest) = (name, c :: rest) := by
  cases name with
  | nil => cases hname
  | cons d name =>
    obtain ⟨hd, hall⟩ := (Bool.and_eq_true _ _).mp hname
    have hmem := List.all_eq_true.mp hall
    rw [List.cons_append, parseName, if_pos hd, List.takeWhile_append_of_pos hmem, List.dropWhile_append_of_pos hmem,
      List.takeWhile_cons_of_neg hc, List.dropWhile_cons_of_neg hc, List.append_nil]

theorem head_of_validName (hname : validName name = true) :
    ∃ d tail, name = d :: tail ∧ isNameStartChar d = true := by
  cases name with
  | nil => cases hname
  | cons d tail => exact ⟨d, tail, rfl, ((Bool.and_eq_true _ _).mp hname).1⟩

/-- The first character of a name is no space, and none of those that have a meaning in a tag. -/
theorem not_special_of_isNameStartChar (hc : isNameStartChar c = true) :
    isspace c = false ∧ c ≠ 0x2F ∧ c ≠ 0x21 ∧ c ≠ 0x3F ∧ c ≠ 0x3C := by
  have hall : ∀ n : Fin 256, isNameStartChar (UInt8.ofNat n) = true → isspace (UInt8.ofNat n) = false ∧
      UInt8.ofNat n ≠ 0x2F ∧ UInt8.ofNat n ≠ 0x21 ∧ UInt8.ofNat n ≠ 0x3F ∧ UInt8.ofNat n ≠ 0x3C := by decide +kernel
  have h := hall ⟨c.toNat, c.toNat_lt⟩
  rw [UInt8.ofNat_toNat] at h
  exact h hc

theorem skipWhiteSpace_of_head (hc : isspace c = false) (p : Text) : skipWhiteSpace (c :: p) = c :: p :=
  List.dropWhile_cons_of_neg (by rw [hc]; exact Bool.false_ne_true)

theorem skipWhiteSpace_blank (hblank : isBlankText pending = true) (p : Text) :
    skipWhiteSpace (pending ++ p) = skipWhiteSpace p :=
  List.dropWhile_append_of_pos (List.all_eq_true.mp hblank)

/-- What ends a tag. -/
def tagTail (closed : Bool) : Text := if closed then [0x2F, 0x3E] else [0x3E]

def renderAttribute (found : TagName × Text) : Text := 0x20 :: (found.1.1 ++ (0x3D :: 0x22 :: (found.2 ++ [0x22])))

def renderAttributes (attributes : List (TagName × Text)) : Text := attributes.flatMap renderAttribute

/-- The attributes as they are read. -/
def attributesOf (attributes : List (TagName × Text)) : List (Text × Text) := attributes.map fun found ↦ (found.1.1, found.2)

/-- The first place of a text that ends with a character is in front of it. -/
theorem parseText_append (hp : c ∉ p) (later rest : Text) : parseText (c :: later) (p ++ (c :: later ++ rest)) = some (p, rest) := by
  induction p with
  | nil =>
    have hpre : c :: later <+: c :: (later ++ rest) := List.prefix_append (c :: later) rest
    rw [List.nil_append, List.cons_append, parseText, if_pos hpre, ← List.cons_append, List.drop_left]
  | cons d p ih =>
    obtain ⟨hne, hlater⟩ := not_or.mp (mt List.mem_cons.mpr hp)
    have hnot : ¬ c :: later <+: d :: (p ++ (c :: later ++ rest)) := by
      rintro ⟨t, heq⟩
      exact hne (List.cons.inj heq).1
    rw [List.cons_append, parseText, if_neg hnot, ih hlater]
    rfl

theorem parseText_single (hp : c ∉ p) (rest : Text) : parseText [c] (p ++ c :: rest) = some (p, rest) :=
  parseText_append hp [] rest

theorem parseAttribute_render (found : TagName × Text) (hvalue : 0x22 ∉ found.2) (rest : Text) :
    parseAttribute ((renderAttribute found ++ rest).tail) = some ((found.1.1, found.2), rest) := by
  have htext : (renderAttribute found ++ rest).tail = found.1.1 ++ 0x3D :: (0x22 :: (found.2 ++ 0x22 :: rest)) := by
    simp only [renderAttribute, List.cons_append, List.append_assoc, List.tail_cons, List.nil_append]
  obtain ⟨d, tail, heq, -⟩ := head_of_validName found.1.2
  have hname := parseName_append found.1.2 (c := 0x3D) (by decide) (0x22 :: (found.2 ++ 0x22 :: rest))
  rw [htext, parseAttribute, hname, heq]
  dsimp only
  rw [skipWhiteSpace_of_head (by decide)]
  dsimp only
  rw [if_pos rfl, skipWhiteSpace_of_head (by decide)]
  dsimp only
  rw [if_pos (.inl rfl), parseText_single hvalue, Option.map_some]

/-- The attributes of a tag are read one after the other. -/
theorem parseAttributes_render (attributes : List (TagName × Text)) (before : List (Text × Text)) (closed : Bool)
    (rest : Text) (hvalues : ∀ found ∈ attributes, 0x22 ∉ found.2)
    (hnames : (before ++ attributesOf attributes).map Prod.fst |>.Nodup) :
    parseAttributes (renderAttributes attributes ++ (tagTail closed ++ rest)) before =
      .ok (before ++ attributesOf attributes, closed, rest) := by
  induction attributes generalizing before with
  | nil =>
    rw [renderAttributes, List.flatMap_nil, List.nil_append, attributesOf, List.map_nil, List.append_nil]
    cases closed with
    | true =>
      rw [parseAttributes]
      split
      · rename_i hskip
        cases hskip
      · rename_i c p' hskip
        cases hskip
        rfl
    | false =>
      rw [parseAttributes]
      split
      · rename_i hskip
        cases hskip
      · rename_i c p' hskip
        cases hskip
        rfl
  | cons found attributes ih =>
    rw [List.forall_mem_cons] at hvalues
    obtain ⟨d, tail, heq, hd⟩ := head_of_validName found.1.2
    obtain ⟨hspace, -⟩ := not_special_of_isNameStartChar hd
    have hparsed := parseAttribute_render found hvalues.1 (renderAttributes attributes ++ (tagTail closed ++ rest))
    have hskip : skipWhiteSpace (renderAttributes (found :: attributes) ++ (tagTail closed ++ rest)) =
        (renderAttribute found ++ (renderAttributes attributes ++ (tagTail closed ++ rest))).tail := by
      rw [renderAttributes, List.flatMap_cons, List.append_assoc, ← renderAttributes, renderAttribute,
        List.cons_append, List.tail_cons, heq, List.cons_append, List.cons_append]
      exact (List.dropWhile_cons_of_pos rfl).trans (skipWhiteSpace_of_head hspace _)
    have hfirst : ∃ p', (renderAttribute found ++ (renderAttributes attributes ++ (tagTail closed ++ rest))).tail = d :: p' := by
      rw [renderAttribute, List.cons_append, List.tail_cons, heq]
      exact ⟨_, rfl⟩
    obtain ⟨p', hp'⟩ := hfirst
    rw [hp'] at hskip hparsed
    have hmap : (before ++ attributesOf (found :: attributes)) =
        before ++ [(found.1.1, found.2)] ++ attributesOf attributes := by
      rw [List.append_assoc]
      rfl
    have hfresh : before.lookup found.1.1 = none := by
      rw [hmap, List.append_assoc, List.map_append, List.nodup_append] at hnames
      apply List.lookup_eq_none_iff.mpr
      intro other hother
      rw [bne_iff_ne]
      exact fun hsame ↦ hnames.2.2 other.1 (List.mem_map_of_mem hother) found.1.1 List.mem_cons_self hsame.symm
    rw [parseAttributes]
    split
    · rename_i hnone
      rw [hskip] at hnone
      cases hnone
    · rename_i c q hsome
      rw [hskip] at hsome
      cases hsome
      rw [if_pos hd]
      split
      · rename_i hnone
        rw [hparsed] at hnone
        cases hnone
      · rename_i found' rest' hsome
        rw [hparsed] at hsome
        cases hsome
        dsimp only
        rw [hfresh]
        rw [hmap] at hnames ⊢
        exact ih _ hvalues.2 hnames

/-- A tag from the parts that are read of it. -/
theorem parseTag_of_parts (closing : Bool) {closed : Bool} {attributes : List (Text × Text)} {start : Text}
    (hskip : skipWhiteSpace p = p) (hclosing : decide (p.head? = some 0x2F) = closing)
    (hstart : (if closing then p.tail else p) = start) (hname : parseName start = (name, rest)) (hne : name ≠ [])
    {behind : Text} (hattributes : parseAttributes rest [] = .ok (attributes, closed, behind)) :
    parseTag p = .ok (⟨name, attributes, if closed then .closed else if closing then .closing else .openTag⟩, behind) := by
  rw [parseTag, hskip, hclosing, hstart, hname]
  cases name with
  | nil => exact absurd rfl hne
  | cons d name =>
    dsimp only
    rw [hattributes]
    cases closed <;> rfl

theorem parseTag_start (hname : validName name = true) (attributes : List (TagName × Text)) (closed : Bool) (rest : Text)
    (hvalues : ∀ found ∈ attributes, 0x22 ∉ found.2) (hnames : ((attributesOf attributes).map Prod.fst).Nodup) :
    parseTag (name ++ (renderAttributes attributes ++ (tagTail closed ++ rest))) =
      .ok (⟨name, attributesOf attributes, if closed then .closed else .openTag⟩, rest) := by
  obtain ⟨d, tail, heq, hd⟩ := head_of_validName hname
  obtain ⟨hspace, hslash, -⟩ := not_special_of_isNameStartChar hd
  have hbehind : ∃ c p', renderAttributes attributes ++ (tagTail closed ++ rest) = c :: p' ∧ ¬ isNameChar c = true := by
    cases attributes with
    | nil =>
      cases closed with
      | true => exact ⟨0x2F, 0x3E :: rest, rfl, by decide⟩
      | false => exact ⟨0x3E, rest, rfl, by decide⟩
    | cons found attributes => exact ⟨0x20, _, rfl, by decide⟩
  obtain ⟨c, p', hp', hc⟩ := hbehind
  have hattributes := parseAttributes_render attributes [] closed rest hvalues hnames
  rw [hp'] at hattributes ⊢
  refine parseTag_of_parts false ?_ ?_ rfl (parseName_append hname hc p') ?_ hattributes
  · rw [heq, List.cons_append]
    exact skipWhiteSpace_of_head hspace _
  · rw [heq]
    exact decide_eq_false fun h ↦ hslash (Option.some.inj h)
  · rw [heq]
    exact List.cons_ne_nil _ _

theorem parseTag_end (hname : validName name = true) (rest : Text) :
    parseTag (0x2F :: (name ++ 0x3E :: rest)) = .ok (⟨name, [], .closing⟩, rest) := by
  obtain ⟨d, tail, heq, -⟩ := head_of_validName hname
  refine parseTag_of_parts true (skipWhiteSpace_of_head (by decide) _) rfl rfl
    (parseName_append hname (by decide) rest) ?_ (parseAttributes_render [] [] false rest (List.forall_mem_nil _) List.nodup_nil)
  rw [heq]
  exact List.cons_ne_nil _ _

/-! ## What begins at an angle bracket or in a text -/

/-- Blanks in front of a tag are skipped. -/
theorem identify_blank (hblank : isBlankText pending = true) (p : Text) :
    identify (pending ++ 0x3C :: p) = identify (0x3C :: p) := by
  have hskip : skipWhiteSpace (0x3C :: p) = 0x3C :: p := skipWhiteSpace_of_head (by decide) p
  have hbracket : text "<" <+: 0x3C :: p := ⟨p, rfl⟩
  rw [identify, identify, skipWhiteSpace_blank hblank, hskip]
  simp only [hbracket, if_true]

theorem identify_element (hbang : c ≠ 0x21) (hquestion : c ≠ 0x3F) (p : Text) :
    identify (0x3C :: c :: p) = .element (c :: p) := by
  have hskip : skipWhiteSpace (0x3C :: c :: p) = 0x3C :: c :: p := skipWhiteSpace_of_head (by decide) _
  have hnot (tag : String) {second : UInt8} {later : Text} (htag : text tag = 0x3C :: second :: later)
      (hne : c ≠ second) : ¬ text tag <+: 0x3C :: c :: p := by
    rintro ⟨t, heq⟩
    rw [htag] at heq
    exact hne (List.cons.inj (List.cons.inj heq).2).1.symm
  have hbracket : text "<" <+: 0x3C :: c :: p := ⟨c :: p, rfl⟩
  rw [identify, hskip, if_neg (List.cons_ne_nil _ _), if_neg (hnot "<?" rfl hquestion), if_neg (hnot "<!--" rfl hbang),
    if_neg (hnot "<![CDATA[" rfl hbang), if_neg (hnot "<!" rfl hbang), if_pos hbracket]
  rfl

/-- A text that is not blank and has no angle bracket goes on from its first byte. -/
theorem identify_text (hblank : ¬ isBlankText pending = true) (hpending : 0x3C ∉ pending) (p : Text) :
    identify (pending ++ p) = .text (pending ++ p) := by
  have hfirst : ∃ c later, skipWhiteSpace (pending ++ p) = c :: later ∧ c ≠ 0x3C := by
    induction pending with
    | nil => exact absurd rfl hblank
    | cons c pending ih =>
      obtain ⟨hc, hlater⟩ := not_or.mp (mt List.mem_cons.mpr hpending)
      by_cases hspace : isspace c = true
      · have hblank' : ¬ isBlankText pending = true := by
          intro hall
          apply hblank
          rw [isBlankText, List.all_cons, hspace]
          exact hall
        obtain ⟨d, later, hskip, hd⟩ := ih hblank' hlater
        refine ⟨d, later, ?_, hd⟩
        rw [← hskip]
        exact List.dropWhile_cons_of_pos hspace
      · refine ⟨c, pending ++ p, ?_, Ne.symm hc⟩
        exact List.dropWhile_cons_of_neg hspace
  obtain ⟨c, later, hskip, hc⟩ := hfirst
  have hnot (tag : String) {behind : Text} (htag : text tag = 0x3C :: behind) : ¬ text tag <+: c :: later := by
    rintro ⟨t, heq⟩
    rw [htag] at heq
    exact hc (List.cons.inj heq).1.symm
  rw [identify, hskip, if_neg (List.cons_ne_nil _ _), if_neg (hnot "<?" rfl), if_neg (hnot "<!--" rfl),
    if_neg (hnot "<![CDATA[" rfl), if_neg (hnot "<!" rfl), if_neg (hnot "<" rfl)]

/-! ## One node -/

variable {fuel : ℕ} {children : List XMLNode}

theorem parseDeep_blank (hblank : isBlankText pending = true) (p : Text) :
    parseDeep fuel (pending ++ 0x3C :: p) = parseDeep fuel (0x3C :: p) := by
  cases fuel with
  | zero => rfl
  | succ fuel => rw [parseDeep, parseDeep, identify_blank hblank]

theorem parseDeep_text (hblank : ¬ isBlankText pending = true) (hpending : 0x3C ∉ pending) (c : UInt8) (p : Text) :
    parseDeep (fuel + 1) (pending ++ 0x3C :: c :: p) =
      (parseDeep fuel (0x3C :: c :: p)).insert (.text pending false) := by
  have hparsed : parseText (text "<") (pending ++ 0x3C :: c :: p) = some (pending, c :: p) :=
    parseText_single hpending (c :: p)
  rw [parseDeep, identify_text hblank hpending]
  dsimp only
  rw [hparsed]

theorem parseDeep_end (hname : validName name = true) (rest : Text) :
    parseDeep (fuel + 1) (closeTag name ++ rest) = .closed [] name rest := by
  have htext : closeTag name ++ rest = 0x3C :: 0x2F :: (name ++ 0x3E :: rest) := by
    simp only [closeTag, List.cons_append, List.append_assoc, List.nil_append]
  rw [htext, parseDeep, identify_element (by decide) (by decide)]
  dsimp only
  rw [parseTag_end hname]

/-- An element, when what stands in it is read up to its end tag. -/
theorem parseDeep_start (hname : validName name = true) (attributes : List (TagName × Text))
    (hvalues : ∀ found ∈ attributes, 0x22 ∉ found.2) (hnames : ((attributesOf attributes).map Prod.fst).Nodup)
    (hp : p ≠ []) (hdeep : parseDeep fuel p = .closed children name rest) :
    parseDeep (fuel + 1) (0x3C :: (name ++ (renderAttributes attributes ++ (tagTail false ++ p)))) =
      (parseDeep fuel rest).insert (.element name (attributesOf attributes) children) := by
  obtain ⟨d, tail, heq, hd⟩ := head_of_validName hname
  obtain ⟨-, -, hbang, hquestion, -⟩ := not_special_of_isNameStartChar hd
  have hidentify := identify_element hbang hquestion (tail ++ (renderAttributes attributes ++ (tagTail false ++ p)))
  have hparsed := parseTag_start hname attributes false p hvalues hnames
  rw [← List.cons_append, ← heq] at hidentify
  rw [parseDeep, hidentify]
  dsimp only
  rw [hparsed]
  cases p with
  | nil => exact absurd rfl hp
  | cons c p =>
    simp only [Bool.false_eq_true, if_false]
    rw [hdeep]
    dsimp only
    rw [if_pos rfl]

/-! ## All nodes of an element -/

theorem not_mem_escapedText (p : Text) : 0x3C ∉ escapedText p := by
  intro hmem
  have hescaped := (wellEscaped_addChars wellEscaped_nil p).noMarkup 0x3C
  rw [addChars_eq, List.nil_append] at hescaped
  exact hescaped hmem (by decide)

theorem exists_closeTag (name rest : Text) : ∃ p, closeTag name ++ rest = 0x3C :: 0x2F :: p := ⟨_, rfl⟩

theorem exists_openTag (name : TagName) (rest : Text) : ∃ c p, openTag name.1 ++ rest = 0x3C :: c :: p := by
  obtain ⟨d, tail, heq, -⟩ := head_of_validName name.2
  rw [openTag, heq]
  exact ⟨d, _, rfl⟩

/-- Text in front of a tag becomes a node, or is dropped. -/
theorem parseDeep_flush {start : Text} {nodes : List XMLNode} (hpending : 0x3C ∉ pending)
    (hstart : ∃ c p, start = 0x3C :: c :: p) (hnow : parseDeep (fuel + 1) start = .closed nodes name rest)
    (hnext : ¬ isBlankText pending = true → parseDeep fuel start = .closed nodes name rest) :
    parseDeep (fuel + 1) (pending ++ start) = .closed (flush pending ++ nodes) name rest := by
  obtain ⟨c, p, rfl⟩ := hstart
  rw [flush]
  by_cases hblank : isBlankText pending = true
  · rw [parseDeep_blank hblank, hnow, if_pos hblank, List.nil_append]
  · rw [parseDeep_text hblank hpending, hnext hblank, if_neg hblank]
    rfl

theorem length_pending_pos (hblank : ¬ isBlankText pending = true) : 0 < pending.length := by
  apply List.length_pos_iff.mpr
  rintro rfl
  exact hblank rfl

/-- The nodes of written items, up to the end tag behind them. -/
theorem parseDeep_items (fuel : ℕ) (items : List Item) (pending : Text) (name : TagName) (rest : Text)
    (hpending : 0x3C ∉ pending) (hfuel : (pending ++ (renderItems items ++ (closeTag name.1 ++ rest))).length < fuel) :
    parseDeep fuel (pending ++ (renderItems items ++ (closeTag name.1 ++ rest))) =
      .closed (nodesFrom pending items) name.1 rest := by
  induction fuel generalizing items pending name rest with
  | zero => exact absurd hfuel (Nat.not_lt_zero _)
  | succ fuel ih =>
    induction items generalizing pending with
    | nil =>
      rw [renderItems, List.nil_append] at hfuel ⊢
      obtain ⟨p, hp⟩ := exists_closeTag name.1 rest
      rw [nodesFrom, ← List.append_nil (flush pending)]
      apply parseDeep_flush hpending ⟨0x2F, p, hp⟩ (parseDeep_end name.2 rest)
      intro hblank
      have hpos := length_pending_pos hblank
      rw [List.length_append] at hfuel
      have hlater := ih [] [] name rest List.not_mem_nil (by
        rw [renderItems, List.nil_append, List.nil_append]
        omega)
      rw [renderItems, List.nil_append, List.nil_append, nodesFrom] at hlater
      exact hlater
    | cons item items ihitems =>
      cases item with
      | chars s =>
        rw [renderItems, Item.render, List.append_assoc, ← List.append_assoc] at hfuel ⊢
        rw [nodesFrom]
        apply ihitems _ _ hfuel
        rw [List.mem_append, not_or]
        exact ⟨hpending, not_mem_escapedText s.bytes⟩
      | element inner innerItems =>
        have hrender : renderItems (.element inner innerItems :: items) ++ (closeTag name.1 ++ rest) =
            openTag inner.1 ++ (renderItems innerItems ++ (closeTag inner.1 ++ (renderItems items ++ (closeTag name.1 ++ rest)))) := by
          rw [renderItems, Item.render]
          simp only [List.append_assoc]
        have hstart : openTag inner.1 ++ (renderItems innerItems ++ (closeTag inner.1 ++ (renderItems items ++ (closeTag name.1 ++ rest)))) =
            0x3C :: (inner.1 ++ (renderAttributes [] ++ (tagTail false ++
              (renderItems innerItems ++ (closeTag inner.1 ++ (renderItems items ++ (closeTag name.1 ++ rest))))))) := by
          simp only [openTag, renderAttributes, tagTail, List.flatMap_nil, List.cons_append, List.append_assoc,
            List.nil_append, Bool.false_eq_true, if_false]
        rw [nodesFrom]
        have hlength := hfuel
        rw [hrender, List.length_append, List.length_append] at hlength
        have hstartpos : 0 < (openTag inner.1).length := Nat.succ_pos _
        have hendpos : 0 < (closeTag inner.1).length := Nat.succ_pos _
        have hinner : parseDeep fuel (renderItems innerItems ++ (closeTag inner.1 ++ (renderItems items ++ (closeTag name.1 ++ rest)))) =
            .closed (nodesFrom [] innerItems) inner.1 (renderItems items ++ (closeTag name.1 ++ rest)) := by
          apply ih innerItems [] inner _ List.not_mem_nil
          rw [List.nil_append]
          omega
        have hlater : parseDeep fuel (renderItems items ++ (closeTag name.1 ++ rest)) =
            .closed (nodesFrom [] items) name.1 rest := by
          apply ih items [] name rest List.not_mem_nil
          have hend := @List.length_append _ (closeTag inner.1) (renderItems items ++ (closeTag name.1 ++ rest))
          rw [List.length_append, hend] at hlength
          rw [List.nil_append]
          omega
        rw [hrender]
        apply parseDeep_flush hpending (exists_openTag inner _)
        · have hne : renderItems innerItems ++ (closeTag inner.1 ++ (renderItems items ++ (closeTag name.1 ++ rest))) ≠ [] := by
            intro hnil
            have hzero := congrArg List.length hnil
            rw [List.length_append, List.length_append, List.length_nil] at hzero
            omega
          rw [hstart, parseDeep_start inner.2 [] (List.forall_mem_nil _) List.nodup_nil hne hinner, hlater]
          rfl
        · intro hblank
          have hpos := length_pending_pos hblank
          have hsame := ih (.element inner innerItems :: items) [] name rest List.not_mem_nil (by
            rw [List.nil_append, hrender, List.length_append]
            omega)
          rw [List.nil_append, hrender, nodesFrom] at hsame
          exact hsame

end DxApi.Xml
