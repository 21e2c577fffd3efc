import DxApi.Xml.Numbers

/-!
# Requests as documents

A request is a header, an element with what was added to it, and an end tag. The parser finds the element with
the texts that were added: a blank text is dropped, and line ends become line feeds.
-/

namespace DxApi.Xml

open Net Request CString

/-! ## The output -/

def tag (name : String) (h : validName (text name) = true := by decide +kernel) : TagName := ⟨text name, h⟩

def plain (value : String) (h : 0 ∉ text value := by decide +kernel) : CString := ⟨text value, h⟩

def itemTag : TagName := tag "item"

def nameTag : TagName := tag "name"

def polymorphicTag : TagName := tag "polymorphic"

theorem renderItems_append (items more : List Item) : renderItems (items ++ more) = renderItems items ++ renderItems more := by
  induction items with
  | nil => rfl
  | cons item items ih => rw [List.cons_append, renderItems, renderItems, ih, List.append_assoc]

/-- Characters without a meaning are written as they are. -/
theorem escapedText_of_plain {p : Text} (h : ∀ c ∈ p, c ∉ 0x26 :: markup) : escapedText p = p := by
  induction p with
  | nil => rfl
  | cons c p ih =>
    rw [List.forall_mem_cons] at h
    rw [escapedText_cons, escaped_of_plain h.1, ih h.2]
    rfl

/-- A part of what is put into an `XmlOutput`: its text, and the items it consists of. -/
structure XmlOutput where
  str : Text
  items : List Item
  str_eq : str = renderItems items

namespace XmlOutput

def empty : XmlOutput := ⟨[], [], rfl⟩

/-- One part behind the other. -/
def append (output later : XmlOutput) : XmlOutput where
  str := output.str ++ later.str
  items := output.items ++ later.items
  str_eq := by rw [output.str_eq, later.str_eq, renderItems_append]

instance : Append XmlOutput := ⟨append⟩

def concat : List XmlOutput → XmlOutput
  | [] => empty
  | output :: later => output ++ concat later

/-- `operator<<` of a string. -/
def addText (value : CString) : XmlOutput where
  str := Xml.addChars [] value.bytes
  items := [.chars value]
  str_eq := by
    rw [addChars_eq, List.nil_append, renderItems, renderItems, Item.render, List.append_nil]
    rfl

/-- `put`, of characters without a meaning. -/
def put (value : CString) (hplain : ∀ c ∈ value.bytes, c ∉ 0x26 :: markup) : XmlOutput where
  str := value.bytes
  items := [.chars value]
  str_eq := by rw [renderItems, renderItems, Item.render, List.append_nil, escapedText_of_plain hplain]

/-- `add` of a line feed. -/
def lineFeed : XmlOutput := addText ⟨[0x0A], by decide⟩

def numberString (value : ℤ) : CString := ⟨numberText value, fun hmem ↦ (plain_numberText hmem).2.1 rfl⟩

/-- `operator<<` of a number. -/
def addNumber (value : ℤ) : XmlOutput := put (numberString value) fun _ hmem ↦ (plain_numberText hmem).1

def boolString : Bool → CString
  | true => plain "1"
  | false => plain "0"

/-- `add` of a truth value, which is printed as a number: the overload of `operator<<` with the words is declared
behind the template that calls it, and is not found there. -/
def addBool (value : Bool) : XmlOutput := put (boolString value) (by cases value <;> decide +kernel)

/-- `operator<<` of a `Nullable`. -/
def addNullable {α : Type} (content : α → XmlOutput) : Option α → XmlOutput
  | none => empty
  | some value => content value

/-- `add`, with the name of a tag. -/
def add (tagName : TagName) (content : XmlOutput) : XmlOutput where
  str := openTag tagName.1 ++ content.str ++ closeTag tagName.1
  items := [.element tagName content.items]
  str_eq := by rw [content.str_eq, renderItems, renderItems, Item.render, List.append_nil]

/-- `addItems`. -/
def addItems {α : Type} (content : α → XmlOutput) (items : List α) : XmlOutput :=
  concat (items.map fun item ↦ add itemTag (content item) ++ lineFeed)

/-- `addItemArray`; nothing is written for an array that is `NULL`. -/
def addItemArray {α : Type} (tagName : TagName) (content : α → XmlOutput) : Option (List α) → XmlOutput
  | none => empty
  | some items => add tagName (addItems content items) ++ lineFeed

/-- `addItemMap`, over the entries in the order of the map. -/
def addItemMap (tagName keyName valueName : TagName) : Option (List (CString × CString)) → XmlOutput
  | none => empty
  | some values =>
    add tagName <| concat <| values.map fun entry ↦
      add itemTag (add keyName (addText entry.1) ++ add valueName (addText entry.2)) ++ lineFeed

@[simp]
theorem items_append (output later : XmlOutput) : (output ++ later).items = output.items ++ later.items := rfl

@[simp]
theorem items_concat (outputs : List XmlOutput) : (concat outputs).items = outputs.flatMap items := by
  induction outputs with
  | nil => rfl
  | cons output outputs ih => rw [concat, items_append, ih, List.flatMap_cons]

end XmlOutput

/-- `PROTOCOL_VERSION`. -/
def protocolVersion : ℕ := 32

/-- `makeRequestHeader`. -/
def makeRequestHeader (req : TagName) (closeTag : Bool) : Text :=
  text "<?xml version=\"1.0\" encoding=\"UTF-8\" standalone=\"yes\"?>" ++ crlf ++ text "<" ++ req.1 ++
    text " version=\"" ++ natText protocolVersion ++ text "\"" ++
    text " xmlns=\"http://xml.deltixlab.com/internal/quantserver/3.0\"" ++
    if closeTag then text "/>" ++ crlf else text ">" ++ crlf

/-- An `XmlRequest`: its name, and what was added to it if it has content at all. -/
structure XmlRequest where
  name : TagName
  content : Option XmlOutput

/-- `XmlRequest::getRequest`. -/
def XmlRequest.getRequest (r : XmlRequest) : Text :=
  match r.content with
  | none => makeRequestHeader r.name true
  | some content => makeRequestHeader r.name false ++ content.str ++ closeTag r.name.1

/-- `XmlInput::parse`, and the elements of the document with all their texts; `none` is a read through `NULL`. -/
def readDocument (data : Text) : Except XMLError (Option (List XMLElement)) :=
  match parse data with
  | .error .nullRead => .ok none
  | .error error => .error error
  | .ok nodes => .ok (elementsOf nodes)

/-! ## What is read -/

/-- The text of an element that begins with some characters; a blank one is dropped. -/
def textOf (p : Text) : Option Text := if isBlankText p then none else some (normalizeLineEnds p)

/-- The characters in front of the first element. -/
def leading : List Item → Text
  | [] => []
  | .chars s :: items => s.bytes ++ leading items
  | .element _ _ :: _ => []

mutual

def Item.read : Item → List XMLElement
  | .chars _ => []
  | .element name items => [.mk name.1 [] (textOf (leading items)) (readItems items)]

def readItems : List Item → List XMLElement
  | [] => []
  | item :: items => item.read ++ readItems items

end

@[simp]
theorem readItems_append (items more : List Item) : readItems (items ++ more) = readItems items ++ readItems more := by
  induction items with
  | nil => rfl
  | cons item items ih => rw [List.cons_append, readItems, readItems, ih, List.append_assoc]

/-- An element with a text. -/
def leaf (name : TagName) (p : Text) : XMLElement := .mk name.1 [] (textOf p) []

section

variable (name : TagName) (content : XmlOutput)

theorem readItems_add : readItems (XmlOutput.add name content).items =
    [.mk name.1 [] (textOf (leading content.items)) (readItems content.items)] := by
  rw [XmlOutput.add, readItems, Item.read, readItems, List.append_nil]

@[simp]
theorem readItems_chars (s : CString) : readItems [.chars s] = [] := by
  rw [readItems, Item.read, readItems, List.append_nil]

@[simp]
theorem readItems_addText (value : CString) : readItems (XmlOutput.addText value).items = [] := readItems_chars value

@[simp]
theorem readItems_lineFeed : readItems XmlOutput.lineFeed.items = [] := readItems_chars _

@[simp]
theorem readItems_empty : readItems XmlOutput.empty.items = [] := by rw [XmlOutput.empty, readItems]

theorem leading_chars (s : CString) : leading [.chars s] = s.bytes := by rw [leading, leading, List.append_nil]

@[simp]
theorem readItems_add_text (value : CString) : readItems (XmlOutput.add name (.addText value)).items = [leaf name value.bytes] := by
  rw [readItems_add, readItems_addText, XmlOutput.addText, leading_chars, leaf]

@[simp]
theorem readItems_add_number (value : ℤ) : readItems (XmlOutput.add name (.addNumber value)).items = [leaf name (numberText value)] := by
  rw [readItems_add, XmlOutput.addNumber, XmlOutput.put, leading_chars, readItems_chars, leaf]
  rfl

@[simp]
theorem readItems_add_bool (value : Bool) :
    readItems (XmlOutput.add name (.addBool value)).items = [leaf name (XmlOutput.boolString value).bytes] := by
  rw [readItems_add, XmlOutput.addBool, XmlOutput.put, leading_chars, readItems_chars, leaf]

/-- A text that is not set is written as an empty element. -/
@[simp]
theorem readItems_add_nullable (value : Option CString) :
    readItems (XmlOutput.add name (.addNullable .addText value)).items = [leaf name (value.elim [] CString.bytes)] := by
  cases value with
  | none =>
    rw [readItems_add, XmlOutput.addNullable, readItems_empty, XmlOutput.empty, leading, leaf]
    rfl
  | some value => exact readItems_add_text name value

end

def requestAttributes : List (TagName × Text) :=
  [(tag "version", natText protocolVersion), (tag "xmlns", text "http://xml.deltixlab.com/internal/quantserver/3.0")]

/-- The element that a request is. -/
def XmlRequest.element (r : XmlRequest) : XMLElement :=
  let items := r.content.elim [] XmlOutput.items
  .mk r.name.1 (attributesOf requestAttributes) (textOf (r.content.elim [] fun _ ↦ crlf ++ leading items)) (readItems items)

/-! ## The texts -/

variable {p : Text} {items : List Item}

theorem isBlankText_append (p more : Text) : isBlankText (p ++ more) = (isBlankText p && isBlankText more) := List.all_append

theorem isBlankText_escapedText (p : Text) : isBlankText (escapedText p) = isBlankText p := by
  induction p with
  | nil => rfl
  | cons c p ih =>
    have hone : isBlankText (escaped c) = isspace c := by
      have hall : ∀ n : Fin 256, isBlankText (escaped (UInt8.ofNat n)) = isspace (UInt8.ofNat n) := by decide +kernel
      have h := hall ⟨c.toNat, c.toNat_lt⟩
      rw [UInt8.ofNat_toNat] at h
      exact h
    rw [escapedText_cons, isBlankText_append, ih, hone]
    rfl

theorem cr_not_mem_normalizeLineEnds (p : Text) : 0x0D ∉ normalizeLineEnds p := by
  fun_induction normalizeLineEnds p with
  | case1 => exact List.not_mem_nil
  | case2 p ih => exact List.not_mem_cons_of_ne_of_not_mem (by decide) ih
  | case3 p hcr ih => exact List.not_mem_cons_of_ne_of_not_mem (by decide) ih
  | case4 c p hcr hlf ih => exact List.not_mem_cons_of_ne_of_not_mem (Ne.symm hcr) ih

/-- A text stays as it is when it has no carriage return. -/
theorem normalizeLineEnds_eq_self_iff : normalizeLineEnds p = p ↔ 0x0D ∉ p := by
  refine ⟨fun hsame ↦ hsame ▸ cr_not_mem_normalizeLineEnds p, fun hno ↦ ?_⟩
  fun_induction normalizeLineEnds p with
  | case1 => rfl
  | case2 p ih => exact absurd List.mem_cons_self hno
  | case3 p hcr ih =>
    have hlater : 0x0D ∉ p := fun hmem ↦ hno (List.mem_cons_of_mem _ hmem)
    have hbehind : behindLineEnd 0x0D p = p := if_neg fun hhead ↦ hlater (List.mem_of_mem_head? hhead)
    rw [hbehind] at ih ⊢
    rw [ih hlater]
  | case4 c p hcr hlf ih => rw [ih fun hmem ↦ hno (List.mem_cons_of_mem _ hmem)]

/-- A text that is neither blank nor has a carriage return is read as it is. -/
theorem textOf_eq_self (hblank : ¬ isBlankText p = true) (hcr : 0x0D ∉ p) : textOf p = some p := by
  rw [textOf, if_neg hblank, normalizeLineEnds_eq_self_iff.mpr hcr]

theorem textOf_numberText (z : ℤ) : textOf (numberText z) = some (numberText z) := by
  apply textOf_eq_self
  · intro hblank
    obtain ⟨c, more, hcons⟩ := List.exists_cons_of_ne_nil (numberText_ne_nil z)
    have hmem : c ∈ numberText z := hcons ▸ List.mem_cons_self
    have hspace := List.all_eq_true.mp hblank c hmem
    rw [(plain_numberText hmem).2.2.2] at hspace
    exact Bool.false_ne_true hspace
  · exact fun hmem ↦ (plain_numberText hmem).2.2.1 rfl

theorem textOf_boolString (value : Bool) : textOf (XmlOutput.boolString value).bytes = some (XmlOutput.boolString value).bytes := by
  cases value
  · exact textOf_eq_self (by decide +kernel) (by decide +kernel)
  · exact textOf_eq_self (by decide +kernel) (by decide +kernel)

theorem getStr_of_plain (hplain : ∀ c ∈ p, c ∉ 0x26 :: markup) (hzero : 0 ∉ p) (hcr : 0x0D ∉ p) : getStr true p = some p := by
  have hread := getStr_escapedText hzero
  rw [escapedText_of_plain hplain, normalizeLineEnds_eq_self_iff.mpr hcr] at hread
  exact hread

theorem escapedText_append (p more : Text) : escapedText (p ++ more) = escapedText p ++ escapedText more := List.flatMap_append

theorem firstText_flush (hzero : 0 ∉ p) {later : List XMLNode} (hlater : firstText later = some none) :
    firstText (flush (escapedText p) ++ later) = some (textOf p) := by
  rw [flush, isBlankText_escapedText, textOf]
  by_cases hblank : isBlankText p = true
  · rw [if_pos hblank, if_pos hblank, List.nil_append, hlater]
  · rw [if_neg hblank, if_neg hblank, List.singleton_append, firstText]
    exact congrArg (Option.map some) (getStr_escapedText hzero)

/-- The text of an element is what stands in front of its first element. -/
theorem firstText_nodesFrom (hzero : 0 ∉ p) (items : List Item) :
    firstText (nodesFrom (escapedText p) items) = some (textOf (p ++ leading items)) := by
  induction items generalizing p with
  | nil =>
    have hflush : firstText (flush (escapedText p) ++ []) = some (textOf p) := firstText_flush hzero rfl
    rw [List.append_nil] at hflush
    rw [nodesFrom, hflush, leading, List.append_nil]
  | cons item items ih =>
    cases item with
    | chars s =>
      have hboth : 0 ∉ p ++ s.bytes := fun hmem ↦ (List.mem_append.mp hmem).elim hzero s.nonzero
      rw [nodesFrom, leading, ← List.append_assoc, ← escapedText_append]
      exact ih hboth
    | element name inner =>
      rw [nodesFrom, leading, List.append_nil]
      exact firstText_flush hzero rfl

/-! ## The elements -/

theorem elementsOf_append (nodes more : List XMLNode) :
    elementsOf (nodes ++ more) = do return (← elementsOf nodes) ++ (← elementsOf more) := by
  induction nodes with
  | nil =>
    rw [List.nil_append, elementsOf]
    cases elementsOf more <;> rfl
  | cons node nodes ih =>
    rw [List.cons_append, elementsOf, elementsOf, ih]
    cases node.elements with
    | none => rfl
    | some first =>
      cases elementsOf nodes with
      | none => rfl
      | some second =>
        cases elementsOf more with
        | none => rfl
        | some third => exact congrArg some (List.append_assoc first second third).symm

theorem elementsOf_flush (pending : Text) : elementsOf (flush pending) = some [] := by
  rw [flush]
  split <;> rfl

/-- An element of a tree of which the texts and the elements are known. -/
theorem elements_element {name : Text} {attributes attributes' : List (Text × Text)} {children : List XMLNode}
    {content : Option Text} {elements : List XMLElement}
    (hattributes : (attributes.mapM fun (name, value) ↦ (getStr true value).map (name, ·)) = some attributes')
    (htext : firstText children = some content) (helements : elementsOf children = some elements) :
    (XMLNode.element name attributes children).elements = some [.mk name attributes' content elements] := by
  rw [XMLNode.elements, hattributes, htext, helements]
  rfl

/-- The nodes that are read of some items give back their elements. -/
theorem elementsOf_nodesFrom (pending : Text) (items : List Item) : elementsOf (nodesFrom pending items) = some (readItems items) := by
  fun_induction nodesFrom pending items with
  | case1 pending => exact elementsOf_flush pending
  | case2 pending s items ih => exact ih
  | case3 pending name inner items ihinner ih =>
    have hinner : firstText (nodesFrom [] inner) = some (textOf (leading inner)) := firstText_nodesFrom List.not_mem_nil inner
    have hfirst : (XMLNode.element name.1 [] (nodesFrom [] inner)).elements =
        some [.mk name.1 [] (textOf (leading inner)) (readItems inner)] := elements_element rfl hinner ihinner
    rw [elementsOf_append, elementsOf_flush, elementsOf, hfirst, ih]
    rfl

/-! ## The document -/

theorem zero_not_mem_validName {name : Text} (h : validName name = true) : 0 ∉ name := by
  cases name with
  | nil => exact List.not_mem_nil
  | cons c name =>
    obtain ⟨hc, hall⟩ := (Bool.and_eq_true _ _).mp h
    rw [List.mem_cons, not_or]
    refine ⟨fun hzero ↦ ?_, fun hzero ↦ absurd (List.all_eq_true.mp hall 0 hzero) (by decide)⟩
    rw [← hzero] at hc
    exact absurd hc (by decide)

theorem zero_not_mem_escapedText (h : 0 ∉ p) : 0 ∉ escapedText p := by
  intro hmem
  obtain ⟨c, hc, hzero⟩ := List.mem_flatMap.mp hmem
  have hall : ∀ n : Fin 256, 0 ∈ escaped (UInt8.ofNat n) → UInt8.ofNat n = 0 := by decide +kernel
  have hsame := hall ⟨c.toNat, c.toNat_lt⟩
  rw [UInt8.ofNat_toNat] at hsame
  exact h (hsame hzero ▸ hc)

mutual

/-- Nothing that is written ends the string. -/
theorem Item.zero_not_mem_render : ∀ item : Item, 0 ∉ item.render
  | .chars s => by
    rw [Item.render]
    exact zero_not_mem_escapedText s.nonzero
  | .element name items => by
    have hname := zero_not_mem_validName name.2
    rw [Item.render, openTag, closeTag]
    simp [hname, zero_not_mem_renderItems items]

theorem zero_not_mem_renderItems : ∀ items : List Item, 0 ∉ renderItems items
  | [] => List.not_mem_nil
  | item :: items => by
    rw [renderItems, List.mem_append, not_or]
    exact ⟨item.zero_not_mem_render, zero_not_mem_renderItems items⟩

end

/-- What the declaration of a document says. -/
def declarationText : Text := text "xml version=\"1.0\" encoding=\"UTF-8\" standalone=\"yes\""

theorem makeRequestHeader_eq (req : TagName) (closed : Bool) :
    makeRequestHeader req closed = text "<?" ++ (declarationText ++ (text "?>" ++
      (crlf ++ 0x3C :: (req.1 ++ (renderAttributes requestAttributes ++ (tagTail closed ++ crlf)))))) := by
  have hdeclaration : text "<?xml version=\"1.0\" encoding=\"UTF-8\" standalone=\"yes\"?>" =
      text "<?" ++ (declarationText ++ text "?>") := rfl
  have hattributes : renderAttributes requestAttributes = text " version=\"" ++ (natText protocolVersion ++ (text "\"" ++
      text " xmlns=\"http://xml.deltixlab.com/internal/quantserver/3.0\"")) := by
    simp [renderAttributes, renderAttribute, requestAttributes, tag, text]
  have htail : (if closed then text "/>" ++ crlf else text ">" ++ crlf) = tagTail closed ++ crlf := by cases closed <;> rfl
  rw [makeRequestHeader, hdeclaration, hattributes, htail]
  simp only [List.append_assoc]
  rfl

variable {fuel : ℕ} {nodes : List XMLNode} {later behind : Text}

/-- A document that is a declaration and what follows it. -/
theorem parse_declaration (hzero : 0 ∉ later) (h : ∀ fuel, later.length < fuel → parseDeep fuel later = .ended nodes) :
    parse (text "<?" ++ (declarationText ++ (text "?>" ++ later))) = .ok (.declaration declarationText :: nodes) := by
  have hstart : readBOM (skipWhiteSpace (untilZero (text "<?" ++ (declarationText ++ (text "?>" ++ later))))) =
      text "<?" ++ (declarationText ++ (text "?>" ++ later)) := by
    have huntil : untilZero (text "<?" ++ (declarationText ++ (text "?>" ++ later))) =
        text "<?" ++ (declarationText ++ (text "?>" ++ later)) := by
      have hwhole : 0 ∉ text "<?" ++ (declarationText ++ (text "?>" ++ later)) := by
        simp only [List.mem_append, not_or]
        exact ⟨by decide +kernel, by decide +kernel, by decide +kernel, hzero⟩
      have h := untilZero_append hwhole []
      rw [List.append_nil, untilZero_nil, List.append_nil] at h
      exact h
    rw [huntil, show text "<?" = 0x3C :: [0x3F] from rfl, List.cons_append, skipWhiteSpace_of_head (by decide), readBOM,
      if_neg]
    rintro ⟨t, heq⟩
    exact absurd (List.cons.inj heq).1 (by decide)
  have hne : text "<?" ++ (declarationText ++ (text "?>" ++ later)) ≠ [] :=
    List.append_ne_nil_of_left_ne_nil (by decide) _
  have hidentify : identify (text "<?" ++ (declarationText ++ (text "?>" ++ later))) =
      .declaration (declarationText ++ (text "?>" ++ later)) := by
    have hskip : skipWhiteSpace (text "<?" ++ (declarationText ++ (text "?>" ++ later))) =
        text "<?" ++ (declarationText ++ (text "?>" ++ later)) := skipWhiteSpace_of_head (by decide) _
    rw [identify, hskip, if_neg hne, if_pos (List.prefix_append _ _)]
    rfl
  have hparsed : parseText (text "?>") (declarationText ++ (text "?>" ++ later)) = some (declarationText, later) :=
    parseText_append (by decide +kernel) [0x3E] later
  have hlength : later.length < (text "<?" ++ (declarationText ++ (text "?>" ++ later))).length := by
    have hpos : 0 < (text "<?").length := by decide
    simp only [List.length_append]
    omega
  rw [parse, hstart, if_neg hne, parseDeep, hidentify]
  dsimp only
  rw [hparsed, afterText, h _ hlength]
  rfl

theorem parseDeep_blanks (hblank : isBlankText behind = true) (fuel : ℕ) : parseDeep (fuel + 1) behind = .ended [] := by
  have hskip : skipWhiteSpace (behind ++ []) = [] := skipWhiteSpace_blank hblank []
  rw [List.append_nil] at hskip
  rw [parseDeep, identify, hskip, if_pos rfl]

/-- The element of a document with content. -/
theorem parseDeep_content (name : TagName) (items : List Item) (hblank : isBlankText behind = true)
    (hfuel : (crlf ++ 0x3C :: (name.1 ++ (renderAttributes requestAttributes ++ (tagTail false ++
      (crlf ++ (renderItems items ++ (closeTag name.1 ++ behind))))))).length < fuel) :
    parseDeep fuel (crlf ++ 0x3C :: (name.1 ++ (renderAttributes requestAttributes ++ (tagTail false ++
      (crlf ++ (renderItems items ++ (closeTag name.1 ++ behind))))))) =
        .ended [.element name.1 (attributesOf requestAttributes) (nodesFrom crlf items)] := by
  cases fuel with
  | zero => exact absurd hfuel (Nat.not_lt_zero _)
  | succ fuel =>
    simp only [List.length_append, List.length_cons] at hfuel
    have hdeep : parseDeep fuel (crlf ++ (renderItems items ++ (closeTag name.1 ++ behind))) =
        .closed (nodesFrom crlf items) name.1 behind := by
      apply parseDeep_items fuel items crlf name behind (by decide)
      simp only [List.length_append]
      omega
    have hne : crlf ++ (renderItems items ++ (closeTag name.1 ++ behind)) ≠ [] := List.append_ne_nil_of_left_ne_nil (by decide) _
    have hstart := parseDeep_start name.2 requestAttributes (by decide +kernel) (by decide +kernel) hne hdeep
    rw [parseDeep_blank (by decide), hstart]
    cases fuel with
    | zero => exact absurd hfuel (by omega)
    | succ fuel =>
      rw [parseDeep_blanks hblank]
      rfl

/-- The element of a document that has no content. -/
theorem parseDeep_noContent (name : TagName)
    (hfuel : (crlf ++ 0x3C :: (name.1 ++ (renderAttributes requestAttributes ++ (tagTail true ++ crlf)))).length < fuel) :
    parseDeep fuel (crlf ++ 0x3C :: (name.1 ++ (renderAttributes requestAttributes ++ (tagTail true ++ crlf)))) =
      .ended [.element name.1 (attributesOf requestAttributes) []] := by
  cases fuel with
  | zero => exact absurd hfuel (Nat.not_lt_zero _)
  | succ fuel =>
    simp only [List.length_append, List.length_cons] at hfuel
    obtain ⟨d, tail, heq, hd⟩ := head_of_validName name.2
    obtain ⟨-, -, hbang, hquestion, -⟩ := not_special_of_isNameStartChar hd
    have hidentify := identify_element hbang hquestion (tail ++ (renderAttributes requestAttributes ++ (tagTail true ++ crlf)))
    have hparsed := parseTag_start name.2 requestAttributes true crlf (by decide +kernel) (by decide +kernel)
    rw [← List.cons_append, ← heq] at hidentify
    rw [parseDeep_blank (by decide), parseDeep, hidentify]
    dsimp only
    rw [hparsed]
    cases fuel with
    | zero => exact absurd hfuel (by omega)
    | succ fuel =>
      simp only [if_true]
      rw [parseDeep_blanks (by decide)]
      rfl

theorem zero_not_mem_header (name : TagName) (closed : Bool) (h : 0 ∉ later) :
    0 ∉ crlf ++ 0x3C :: (name.1 ++ (renderAttributes requestAttributes ++ (tagTail closed ++ later))) := by
  have hattributes : 0 ∉ renderAttributes requestAttributes := by decide +kernel
  have htail : 0 ∉ tagTail closed := by cases closed <;> decide
  simp [crlf, zero_not_mem_validName name.2, hattributes, htail, h]

theorem zero_not_mem_blanks (hblank : isBlankText behind = true) : 0 ∉ behind :=
  fun hmem ↦ absurd (List.all_eq_true.mp hblank 0 hmem) (by decide)

/-- The element with the attributes of a request. -/
theorem elements_request (name : TagName) {nodes : List XMLNode} {content : Option Text} {elements : List XMLElement}
    (htext : firstText nodes = some content) (helements : elementsOf nodes = some elements) :
    elementsOf [.declaration declarationText, .element name.1 (attributesOf requestAttributes) nodes] =
      some [.mk name.1 (attributesOf requestAttributes) content elements] := by
  have hattributes : ((attributesOf requestAttributes).mapM fun (name, value) ↦ (getStr true value).map (name, ·)) =
      some (attributesOf requestAttributes) := by
    rw [requestAttributes, attributesOf]
    simp only [List.map_cons, List.map_nil, List.mapM_cons, List.mapM_nil]
    rw [getStr_of_plain (by decide +kernel) (by decide +kernel) (by decide +kernel),
      getStr_of_plain (by decide +kernel) (by decide +kernel) (by decide +kernel)]
    rfl
  rw [elementsOf, elementsOf, elements_element hattributes htext helements]
  rfl

/-- What was put into a document is read back, with blanks behind the end tag or without. -/
theorem readDocument_content (name : TagName) (content : XmlOutput) (hblank : isBlankText behind = true) :
    readDocument (makeRequestHeader name false ++ content.str ++ closeTag name.1 ++ behind) =
      .ok (some [XmlRequest.element ⟨name, some content⟩]) := by
  have hzero : 0 ∉ crlf ++ (renderItems content.items ++ (closeTag name.1 ++ behind)) := by
    simp [crlf, closeTag, zero_not_mem_renderItems, zero_not_mem_validName name.2, zero_not_mem_blanks hblank]
  have hparsed := parse_declaration (zero_not_mem_header name false hzero)
    fun fuel hfuel ↦ parseDeep_content name content.items hblank hfuel
  have htext := firstText_nodesFrom (p := crlf) (by decide) content.items
  have helements := elementsOf_nodesFrom crlf content.items
  rw [readDocument, makeRequestHeader_eq, content.str_eq]
  simp only [List.append_assoc, List.cons_append] at hparsed ⊢
  rw [hparsed]
  exact congrArg Except.ok (elements_request name htext helements)

/-- A request is read as the element with what was added to it. -/
theorem readDocument_getRequest (r : XmlRequest) : readDocument r.getRequest = .ok (some [r.element]) := by
  obtain ⟨name, content⟩ := r
  cases content with
  | some content =>
    have hread : readDocument (makeRequestHeader name false ++ content.str ++ closeTag name.1 ++ []) =
        .ok (some [XmlRequest.element ⟨name, some content⟩]) := readDocument_content name content rfl
    rw [List.append_nil] at hread
    exact hread
  | none =>
    have hzero : 0 ∉ crlf := by decide
    have hparsed := parse_declaration (zero_not_mem_header name true hzero) fun fuel hfuel ↦ parseDeep_noContent name hfuel
    rw [readDocument, XmlRequest.getRequest, makeRequestHeader_eq, hparsed]
    exact congrArg Except.ok (elements_request name rfl rfl)

end DxApi.Xml
