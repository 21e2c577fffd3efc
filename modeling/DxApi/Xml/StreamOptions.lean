import DxApi.Xml.Documents

/-!
# The options of a stream

The options are written into the request that creates a stream, and read from the response that lists the
streams. Truth values are written as numbers, which the reader refuses. With the words that it takes, what was
written is read back, apart from two members that are not written, texts that are blank, and carriage returns.
-/

namespace DxApi.Xml

open Net Request CString XmlOutput

/-! ## The source -/

structure BufferOptions where
  initialBufferSize : UInt32
  maxBufferSize : UInt32
  maxBufferTimeDepth : UInt64
  lossless : Bool
  deriving DecidableEq

/-- The constructor of `BufferOptions`. -/
def BufferOptions.default : BufferOptions := ⟨0x2000, 0x10000, 0x7FFFFFFFFFFFFFFF, false⟩

/-- `StreamScope`; `unknown` is the byte that stands for a text which names none. -/
inductive StreamScope
  | durable
  | externalFile
  | transient
  | runtime
  | unknown
  deriving DecidableEq

/-- `toString`, `none` for `NULL`. -/
def StreamScope.toString : StreamScope → Option CString
  | durable => some (plain "DURABLE")
  | externalFile => some (plain "EXTERNAL_FILE")
  | transient => some (plain "TRANSIENT")
  | runtime => some (plain "RUNTIME")
  | unknown => none

/-- `fromString`. -/
def StreamScope.fromString (source : Text) : StreamScope :=
  ([durable, externalFile, transient, runtime].find? fun scope ↦ scope.toString.map CString.bytes = some source).getD unknown

structure StreamOptions where
  name : Option CString
  description : Option CString
  owner : Option CString
  location : Option CString
  bufferOptions : BufferOptions
  scope : StreamScope
  distributionFactor : Int32
  distributionRuleName : Option CString
  duplicatesAllowed : Bool
  highAvailability : Bool
  unique : Bool
  polymorphic : Bool
  periodicity : CString
  metadata : Option CString
  deriving DecidableEq

/-- The constructor of `StreamOptions`. -/
def StreamOptions.default : StreamOptions where
  name := none
  description := none
  owner := none
  location := none
  bufferOptions := .default
  scope := .durable
  distributionFactor := 0
  distributionRuleName := none
  duplicatesAllowed := true
  highAvailability := false
  unique := false
  polymorphic := false
  periodicity := plain "IRREGULAR"
  metadata := none

/-- `operator==`. -/
def StreamOptions.equals (options other : StreamOptions) : Bool :=
  options.name = other.name ∧ options.description = other.description ∧ options.owner = other.owner ∧
    options.scope = other.scope ∧ options.distributionFactor = other.distributionFactor ∧
    options.distributionRuleName = other.distributionRuleName ∧ options.location = other.location ∧
    options.duplicatesAllowed = other.duplicatesAllowed ∧ options.highAvailability = other.highAvailability ∧
    options.unique = other.unique ∧ options.polymorphic = other.polymorphic ∧ options.metadata = other.metadata ∧
    options.bufferOptions = other.bufferOptions

def highAvailabilityTag : TagName := tag "highAvailability"

/-- `ADD`, of a member. -/
def addLine (name : TagName) (content : XmlOutput) : XmlOutput := add name content ++ lineFeed

/-- `ADD`, of a member that may not be set. -/
def addIfSet (name : TagName) : Option CString → XmlOutput
  | none => .empty
  | some value => addLine name (addText value)

/-- `operator<<` of `BufferOptionsImpl`. -/
def BufferOptions.write (v : BufferOptions) : XmlOutput :=
  lineFeed ++ addLine (tag "initialBufferSize") (addNumber v.initialBufferSize.toNat) ++
    addLine (tag "maxBufferSize") (addNumber v.maxBufferSize.toNat) ++
    addLine (tag "maxBufferTimeDepth") (addNumber v.maxBufferTimeDepth.toNat) ++
    addLine (tag "lossless") (addBool v.lossless)

/-- `operator<<` of `StreamOptionsImpl`; the name of a scope that has none is read through `NULL`. -/
def StreamOptions.write (v : StreamOptions) : Option XmlOutput :=
  v.scope.toString.map fun scope ↦
    lineFeed ++ addIfSet nameTag v.name ++ addIfSet (tag "description") v.description ++
      addIfSet (tag "location") v.location ++ addLine (tag "distributionFactor") (addNumber v.distributionFactor.toInt) ++
      addLine (tag "bufferOptions") v.bufferOptions.write ++ addLine (tag "unique") (addBool v.unique) ++
      addLine (tag "duplicatesAllowed") (addBool v.duplicatesAllowed) ++ addLine (tag "scope") (addText scope) ++
      addLine (tag "periodicity") (addText v.periodicity) ++ addIfSet (tag "owner") v.owner ++
      addLine polymorphicTag (addBool v.polymorphic) ++ addLine (tag "metadata") (addNullable addText v.metadata)

/-- A string from what `source` points at. -/
def stringOf (source : Text) : CString := ⟨untilZero source, zero_not_mem_untilZero source⟩

/-- `parse` of a number, from what `strto…` gives for it. -/
def parseNumber {α : Type} (value : α) (source : Text) : Option α := if strtoullLength source = 0 then none else some value

def parseInt32 (source : Text) : Option Int32 := parseNumber (Int32.ofInt (strtoll source)) source

def parseUInt32 (source : Text) : Option UInt32 := parseNumber (UInt32.ofNat (strtoull source)) source

def parseUInt64 (source : Text) : Option UInt64 := parseNumber (UInt64.ofNat (strtoull source)) source

/-- `parse<bool>`. -/
def parseTruth (source : Text) : Option Bool :=
  if source.map lower = text "true" then some true else if source.map lower = text "false" then some false else none

/-- `GET`: the member stays as it is when there is no text. -/
def getMember {α : Type} (root : XMLElement) (name : TagName) (parse : Text → Option α) (member : α) : Option α :=
  match root.getText name.1 with
  | none => some member
  | some source => parse source

/-- `BufferOptionsImpl::fromXML`; `none` is the result `false`. -/
def BufferOptions.fromXML (root : XMLElement) (o : BufferOptions) : Option BufferOptions := do
  let initialBufferSize ← getMember root (tag "initialBufferSize") parseUInt32 o.initialBufferSize
  let maxBufferSize ← getMember root (tag "maxBufferSize") parseUInt32 o.maxBufferSize
  let maxBufferTimeDepth ← getMember root (tag "maxBufferTimeDepth") parseUInt64 o.maxBufferTimeDepth
  let lossless ← getMember root (tag "lossless") parseTruth o.lossless
  return ⟨initialBufferSize, maxBufferSize, maxBufferTimeDepth, lossless⟩

/-- `StreamOptionsImpl::fromXML`. -/
def StreamOptions.fromXML (root : XMLElement) (o : StreamOptions) : Option StreamOptions := do
  let nullable (source : Text) : Option (Option CString) := some (some (stringOf source))
  let name ← getMember root nameTag nullable o.name
  let description ← getMember root (tag "description") nullable o.description
  let owner ← getMember root (tag "owner") nullable o.owner
  let location ← getMember root (tag "location") nullable o.location
  let metadata ← getMember root (tag "metadata") nullable o.metadata
  let distributionFactor ← getMember root (tag "distributionFactor") parseInt32 o.distributionFactor
  let unique ← getMember root (tag "unique") parseTruth o.unique
  let duplicatesAllowed ← getMember root (tag "duplicatesAllowed") parseTruth o.duplicatesAllowed
  let scope ← getMember root (tag "scope") (some ∘ StreamScope.fromString) o.scope
  let periodicity ← getMember root (tag "periodicity") (some ∘ stringOf) o.periodicity
  let highAvailability ← getMember root highAvailabilityTag parseTruth o.highAvailability
  let polymorphic ← getMember root polymorphicTag parseTruth o.polymorphic
  let bufferOptions ←
    match root.firstChildElement (tag "bufferOptions").1 with
    | none => some BufferOptions.default
    | some e => BufferOptions.fromXML e .default
  return { o with
    name, description, owner, location, metadata, distributionFactor, unique, duplicatesAllowed, scope,
    periodicity, highAvailability, polymorphic, bufferOptions }

/-! ## What is written -/

variable {v : StreamOptions} {scope : CString}

def ifSet (name : TagName) (value : Option CString) : List XMLElement := value.toList.map fun s ↦ leaf name s.bytes

@[simp]
theorem readItems_addLine (name : TagName) (content : XmlOutput) :
    readItems (addLine name content).items = readItems (add name content).items := by
  rw [addLine, items_append, readItems_append, readItems_lineFeed, List.append_nil]

@[simp]
theorem readItems_addIfSet (name : TagName) (value : Option CString) : readItems (addIfSet name value).items = ifSet name value := by
  cases value with
  | none => exact readItems_empty
  | some value => rw [addIfSet, readItems_addLine, readItems_add_text, ifSet, Option.toList_some, List.map_cons, List.map_nil]

/-- The elements of the options of a buffer, by their names, for a spelling of the truth values. -/
def BufferOptions.fields (truth : Bool → CString) (v : BufferOptions) : List (TagName × List XMLElement) :=
  [(tag "initialBufferSize", [leaf (tag "initialBufferSize") (numberText v.initialBufferSize.toNat)]),
    (tag "maxBufferSize", [leaf (tag "maxBufferSize") (numberText v.maxBufferSize.toNat)]),
    (tag "maxBufferTimeDepth", [leaf (tag "maxBufferTimeDepth") (numberText v.maxBufferTimeDepth.toNat)]),
    (tag "lossless", [leaf (tag "lossless") (truth v.lossless).bytes])]

theorem BufferOptions.readItems_write (v : BufferOptions) : readItems v.write.items = (v.fields boolString).flatMap Prod.snd := by
  simp [BufferOptions.write, BufferOptions.fields]

def BufferOptions.element (truth : Bool → CString) (v : BufferOptions) : XMLElement :=
  .mk (tag "bufferOptions").1 [] (textOf (leading v.write.items)) ((v.fields truth).flatMap Prod.snd)

/-- The elements of the options, by their names. -/
def StreamOptions.fields (truth : Bool → CString) (v : StreamOptions) (scope : CString) : List (TagName × List XMLElement) :=
  [(nameTag, ifSet nameTag v.name), (tag "description", ifSet (tag "description") v.description),
    (tag "location", ifSet (tag "location") v.location),
    (tag "distributionFactor", [leaf (tag "distributionFactor") (numberText v.distributionFactor.toInt)]),
    (tag "bufferOptions", [v.bufferOptions.element truth]),
    (tag "unique", [leaf (tag "unique") (truth v.unique).bytes]),
    (tag "duplicatesAllowed", [leaf (tag "duplicatesAllowed") (truth v.duplicatesAllowed).bytes]),
    (tag "scope", [leaf (tag "scope") scope.bytes]),
    (tag "periodicity", [leaf (tag "periodicity") v.periodicity.bytes]),
    (tag "owner", ifSet (tag "owner") v.owner),
    (polymorphicTag, [leaf polymorphicTag (truth v.polymorphic).bytes]),
    (tag "metadata", [leaf (tag "metadata") (v.metadata.elim [] CString.bytes)])]

theorem StreamOptions.readItems_write {output : XmlOutput} (hwrite : v.write = some output) :
    ∃ scope, v.scope.toString = some scope ∧ readItems output.items = (v.fields boolString scope).flatMap Prod.snd := by
  obtain ⟨scope, hscope, rfl⟩ := Option.map_eq_some_iff.mp hwrite
  refine ⟨scope, hscope, ?_⟩
  have hbuffer : readItems (add (tag "bufferOptions") v.bufferOptions.write).items = [v.bufferOptions.element boolString] := by
    rw [readItems_add, BufferOptions.readItems_write, BufferOptions.element]
  simp [StreamOptions.fields, hbuffer]

/-! ## What is found -/

/-- The elements of an element stand in groups, of one name each. -/
structure HasFields (root : XMLElement) (fields : List (TagName × List XMLElement)) : Prop where
  children : root.children = fields.flatMap Prod.snd
  nodup : (fields.map Prod.fst).Nodup
  own : ∀ field ∈ fields, ∀ e ∈ field.2, e.name = field.1.1

/-- The first element of a name, in elements that stand in groups of one name each. -/
theorem find?_fields {fields : List (TagName × List XMLElement)} (hnames : (fields.map Prod.fst).Nodup)
    (hown : ∀ field ∈ fields, ∀ e ∈ field.2, e.name = field.1.1) {name : TagName} {elements : List XMLElement}
    (hmem : (name, elements) ∈ fields) : (fields.flatMap Prod.snd).find? (fun child ↦ child.name = name.1) = elements.head? := by
  induction fields with
  | nil => cases hmem
  | cons field fields ih =>
    rw [List.map_cons, List.nodup_cons] at hnames
    rw [List.forall_mem_cons] at hown
    rw [List.flatMap_cons, List.find?_append]
    rcases List.mem_cons.mp hmem with heq | hmem
    · cases heq
      have hlater : (fields.flatMap Prod.snd).find? (fun child ↦ child.name = name.1) = none := by
        rw [List.find?_eq_none]
        intro e he
        obtain ⟨other, hother, he⟩ := List.mem_flatMap.mp he
        have hname := hown.2 other hother e he
        have hne : other.1 ≠ name := by
          intro hsame
          have hin : other.1 ∈ fields.map Prod.fst := List.mem_map_of_mem hother
          rw [hsame] at hin
          exact hnames.1 hin
        rw [hname, decide_eq_true_iff]
        exact fun hsame ↦ hne (Subtype.ext hsame)
      rw [hlater, Option.or_none]
      cases elements with
      | nil => rfl
      | cons e elements => exact List.find?_cons_of_pos (decide_eq_true (hown.1 e List.mem_cons_self))
    · have hfirst : field.2.find? (fun child ↦ child.name = name.1) = none := by
        rw [List.find?_eq_none]
        intro e he
        have hne : field.1 ≠ name := by
          intro hsame
          rw [hsame] at hnames
          exact hnames.1 (List.mem_map_of_mem hmem)
        rw [hown.1 e he, decide_eq_true_iff]
        exact fun hsame ↦ hne (Subtype.ext hsame)
      rw [hfirst, Option.none_or]
      exact ih hnames.2 hown.2 hmem

section

variable {root : XMLElement} {fields : List (TagName × List XMLElement)} {name : TagName} {α : Type}

theorem HasFields.firstChildElement (h : HasFields root fields) {elements : List XMLElement} (hmem : (name, elements) ∈ fields) :
    root.firstChildElement name.1 = elements.head? := by
  rw [XMLElement.firstChildElement, h.children]
  exact find?_fields h.nodup h.own hmem

variable (parse : Text → Option α) (member : α)

theorem HasFields.getMember_leaf (h : HasFields root fields) {p : Text} (hmem : (name, [leaf name p]) ∈ fields) :
    getMember root name parse member = (textOf p).elim (some member) parse := by
  rw [getMember, XMLElement.getText, h.firstChildElement hmem, List.head?_cons, Option.bind_some, leaf, XMLElement.text]
  cases textOf p <;> rfl

theorem HasFields.getMember_ifSet (h : HasFields root fields) {value : Option CString} (hmem : (name, ifSet name value) ∈ fields) :
    getMember root name parse member = (value.bind fun s ↦ textOf s.bytes).elim (some member) parse := by
  cases value with
  | none =>
    rw [getMember, XMLElement.getText, h.firstChildElement hmem]
    rfl
  | some value => exact h.getMember_leaf parse member hmem

/-- An element that has none of a name keeps the member. -/
theorem HasFields.getMember_absent (h : HasFields root fields) (habsent : name ∉ fields.map Prod.fst) :
    getMember root name parse member = some member := by
  have hnone : root.firstChildElement name.1 = none := by
    rw [XMLElement.firstChildElement, h.children, List.find?_eq_none]
    intro e he
    obtain ⟨field, hfield, he⟩ := List.mem_flatMap.mp he
    rw [h.own field hfield e he, decide_eq_true_iff]
    intro hsame
    have hin : field.1 ∈ fields.map Prod.fst := List.mem_map_of_mem hfield
    rw [Subtype.ext hsame] at hin
    exact habsent hin
  rw [getMember, XMLElement.getText, hnone]
  rfl

end

/-! ## What is parsed -/

theorem parseNumber_numberText {α : Type} (value : α) (z : ℤ) : parseNumber value (numberText z) = some value := by
  rw [parseNumber, if_neg]
  rw [strtoullLength_numberText]
  exact mt List.length_eq_zero_iff.mp (numberText_ne_nil z)

theorem parseInt32_numberText (x : Int32) : parseInt32 (numberText x.toInt) = some x := by
  have hlow := x.le_toInt
  have hhigh := x.toInt_lt
  have hvalue : strtoll (numberText x.toInt) = x.toInt := by
    rw [strtoll, numberAhead_numberText]
    omega
  rw [parseInt32, hvalue, Int32.ofInt_toInt, parseNumber_numberText]

theorem strtoull_numberText {n : ℕ} (h : n < 2 ^ 64) : strtoull (numberText n) = n := by
  rw [strtoull, numberAhead_numberText, if_neg (by omega)]
  omega

theorem parseUInt32_numberText (x : UInt32) : parseUInt32 (numberText x.toNat) = some x := by
  have hlt := x.toNat_lt
  rw [parseUInt32, strtoull_numberText (by omega), UInt32.ofNat_toNat, parseNumber_numberText]

theorem parseUInt64_numberText (x : UInt64) : parseUInt64 (numberText x.toNat) = some x := by
  rw [parseUInt64, strtoull_numberText x.toNat_lt, UInt64.ofNat_toNat, parseNumber_numberText]

/-- The words that `parse<bool>` takes. -/
def truthWord : Bool → Text
  | true => text "true"
  | false => text "false"

theorem zero_not_mem_truthWord (value : Bool) : 0 ∉ truthWord value := by
  cases value <;> decide +kernel

def wordString (value : Bool) : CString := ⟨truthWord value, zero_not_mem_truthWord value⟩

theorem parseTruth_wordString (value : Bool) : parseTruth (wordString value).bytes = some value := by
  cases value <;> decide +kernel

theorem parseTruth_boolString (value : Bool) : parseTruth (boolString value).bytes = none := by
  cases value <;> decide +kernel

theorem textOf_wordString (value : Bool) : textOf (wordString value).bytes = some (wordString value).bytes := by
  cases value
  · exact textOf_eq_self (by decide +kernel) (by decide +kernel)
  · exact textOf_eq_self (by decide +kernel) (by decide +kernel)

theorem fromString_toString {scope : StreamScope} {name : CString} (h : scope.toString = some name) :
    StreamScope.fromString name.bytes = scope ∧ textOf name.bytes = some name.bytes := by
  cases scope with
  | unknown => cases h
  | durable =>
    cases h
    exact ⟨by decide +kernel, textOf_eq_self (by decide +kernel) (by decide +kernel)⟩
  | externalFile =>
    cases h
    exact ⟨by decide +kernel, textOf_eq_self (by decide +kernel) (by decide +kernel)⟩
  | transient =>
    cases h
    exact ⟨by decide +kernel, textOf_eq_self (by decide +kernel) (by decide +kernel)⟩
  | runtime =>
    cases h
    exact ⟨by decide +kernel, textOf_eq_self (by decide +kernel) (by decide +kernel)⟩

theorem BufferOptions.names_fields (truth : Bool → CString) (v : BufferOptions) :
    ((v.fields truth).map Prod.fst).Nodup ∧ ∀ field ∈ v.fields truth, ∀ e ∈ field.2, e.name = field.1.1 := by
  constructor
  · simp only [BufferOptions.fields, List.map_cons, List.map_nil]
    decide +kernel
  · simp [BufferOptions.fields, leaf, XMLElement.name]

theorem StreamOptions.names_fields (truth : Bool → CString) (v : StreamOptions) (scope : CString) :
    ((v.fields truth scope).map Prod.fst).Nodup ∧ ∀ field ∈ v.fields truth scope, ∀ e ∈ field.2, e.name = field.1.1 := by
  constructor
  · simp only [StreamOptions.fields, List.map_cons, List.map_nil]
    decide +kernel
  · simp [StreamOptions.fields, leaf, ifSet, BufferOptions.element, XMLElement.name]

/-! ## What is read back -/

/-- What is left of a text: nothing of a blank one, and line feeds for line ends. -/
def keptText (value : CString) : Option CString := (textOf value.bytes).map stringOf

/-- The options that are read from the written ones. -/
def StreamOptions.readBack (v : StreamOptions) : StreamOptions where
  name := v.name.bind keptText
  description := v.description.bind keptText
  owner := v.owner.bind keptText
  location := v.location.bind keptText
  bufferOptions := v.bufferOptions
  scope := v.scope
  distributionFactor := v.distributionFactor
  distributionRuleName := none
  duplicatesAllowed := v.duplicatesAllowed
  highAvailability := false
  unique := v.unique
  polymorphic := v.polymorphic
  periodicity := (keptText v.periodicity).getD (plain "IRREGULAR")
  metadata := v.metadata.bind keptText

section

variable {truth : Bool → CString}

/-- The options of a buffer, up to what the truth value is parsed as. -/
theorem BufferOptions.fromXML_element (htruth : ∀ value, textOf (truth value).bytes = some (truth value).bytes)
    (v before : BufferOptions) : BufferOptions.fromXML (v.element truth) before =
      (parseTruth (truth v.lossless).bytes).map fun lossless ↦ { v with lossless } := by
  have hfields : HasFields (v.element truth) (v.fields truth) := ⟨rfl, (v.names_fields truth).1, (v.names_fields truth).2⟩
  have hnumber {α : Type} {name : TagName} {parse : Text → Option α} {member value : α} {n : ℕ}
      (hmem : (name, [leaf name (numberText n)]) ∈ v.fields truth) (hparse : parse (numberText n) = some value) :
      getMember (v.element truth) name parse member = some value := by
    rw [hfields.getMember_leaf parse member hmem, textOf_numberText, Option.elim_some, hparse]
  have hlossless : getMember (v.element truth) (tag "lossless") parseTruth before.lossless =
      parseTruth (truth v.lossless).bytes := by
    rw [hfields.getMember_leaf _ _ (p := (truth v.lossless).bytes) (by simp [BufferOptions.fields]), htruth, Option.elim_some]
  rw [BufferOptions.fromXML, hnumber (by simp [BufferOptions.fields]) (parseUInt32_numberText v.initialBufferSize),
    hnumber (by simp [BufferOptions.fields]) (parseUInt32_numberText v.maxBufferSize),
    hnumber (by simp [BufferOptions.fields]) (parseUInt64_numberText v.maxBufferTimeDepth), hlossless]
  cases parseTruth (truth v.lossless).bytes <;> rfl

/-- What is read of the elements of some options, whatever stands around them, up to what the truth values are
parsed as. -/
theorem StreamOptions.fromXML_fields {root : XMLElement} (hscope : v.scope.toString = some scope)
    (htruth : ∀ value, textOf (truth value).bytes = some (truth value).bytes)
    (hroot : root.children = (v.fields truth scope).flatMap Prod.snd) :
    StreamOptions.fromXML root .default = do
      let unique ← parseTruth (truth v.unique).bytes
      let duplicatesAllowed ← parseTruth (truth v.duplicatesAllowed).bytes
      let polymorphic ← parseTruth (truth v.polymorphic).bytes
      let lossless ← parseTruth (truth v.bufferOptions.lossless).bytes
      return { v.readBack with
        unique, duplicatesAllowed, polymorphic, bufferOptions := { v.bufferOptions with lossless } } := by
  have hfields : HasFields root (v.fields truth scope) := ⟨hroot, (v.names_fields truth scope).1, (v.names_fields truth scope).2⟩
  have hset {name : TagName} (value : Option CString) (hmem : (name, ifSet name value) ∈ v.fields truth scope) :
      getMember root name (fun source ↦ some (some (stringOf source))) none = some (value.bind keptText) := by
    rw [hfields.getMember_ifSet _ _ hmem]
    cases value with
    | none => rfl
    | some value =>
      rw [Option.bind_some, Option.bind_some, keptText]
      cases textOf value.bytes <;> rfl
  have hparsed {name : TagName} {member : Bool} (value : Bool)
      (hmem : (name, [leaf name (truth value).bytes]) ∈ v.fields truth scope) :
      getMember root name parseTruth member = parseTruth (truth value).bytes := by
    rw [hfields.getMember_leaf _ _ hmem, htruth, Option.elim_some]
  have hmetadata : getMember root (tag "metadata") (fun source ↦ some (some (stringOf source))) none =
      some (v.metadata.bind keptText) := by
    rw [hfields.getMember_leaf _ _ (p := v.metadata.elim [] CString.bytes) (by simp [StreamOptions.fields])]
    cases v.metadata with
    | none => rfl
    | some value =>
      rw [Option.elim_some, Option.bind_some, keptText]
      cases textOf value.bytes <;> rfl
  have hfactor : getMember root (tag "distributionFactor") parseInt32 0 = some v.distributionFactor := by
    rw [hfields.getMember_leaf _ _ (p := numberText v.distributionFactor.toInt) (by simp [StreamOptions.fields]), textOf_numberText,
      Option.elim_some, parseInt32_numberText]
  have hfound : getMember root (tag "scope") (some ∘ StreamScope.fromString) StreamScope.durable = some v.scope := by
    obtain ⟨hname, htext⟩ := fromString_toString hscope
    rw [hfields.getMember_leaf _ _ (p := scope.bytes) (by simp [StreamOptions.fields]), htext, Option.elim_some,
      Function.comp_apply, hname]
  have hperiodicity : getMember root (tag "periodicity") (some ∘ stringOf) (plain "IRREGULAR") =
      some ((keptText v.periodicity).getD (plain "IRREGULAR")) := by
    rw [hfields.getMember_leaf _ _ (p := v.periodicity.bytes) (by simp [StreamOptions.fields]), keptText]
    cases textOf v.periodicity.bytes <;> rfl
  have hhigh : getMember root highAvailabilityTag parseTruth false = some false := by
    apply hfields.getMember_absent
    simp only [StreamOptions.fields, List.map_cons, List.map_nil]
    decide +kernel
  have hgroup : (tag "bufferOptions", [v.bufferOptions.element truth]) ∈ v.fields truth scope := by simp [StreamOptions.fields]
  have hbuffer : root.firstChildElement (tag "bufferOptions").1 = some (v.bufferOptions.element truth) :=
    hfields.firstChildElement hgroup
  simp only [StreamOptions.fromXML, StreamOptions.default]
  rw [hset v.name (by simp [StreamOptions.fields]), hset v.description (by simp [StreamOptions.fields]),
    hset v.owner (by simp [StreamOptions.fields]), hset v.location (by simp [StreamOptions.fields]),
    hmetadata, hfactor, hparsed v.unique (by simp [StreamOptions.fields]),
    hparsed v.duplicatesAllowed (by simp [StreamOptions.fields]), hfound, hperiodicity, hhigh,
    hparsed v.polymorphic (by simp [StreamOptions.fields]), hbuffer]
  dsimp only
  simp only [Option.bind_eq_bind, Option.bind_some, BufferOptions.fromXML_element htruth]
  cases parseTruth (truth v.unique).bytes with
  | none => rfl
  | some unique =>
    cases parseTruth (truth v.duplicatesAllowed).bytes with
    | none => rfl
    | some duplicatesAllowed =>
      cases parseTruth (truth v.polymorphic).bytes with
      | none => rfl
      | some polymorphic => cases parseTruth (truth v.bufferOptions.lossless).bytes <;> rfl

end

/-- The truth values as they are written are refused. -/
theorem StreamOptions.fromXML_digits {root : XMLElement} (hscope : v.scope.toString = some scope)
    (hroot : root.children = (v.fields boolString scope).flatMap Prod.snd) : StreamOptions.fromXML root .default = none := by
  rw [fromXML_fields hscope textOf_boolString hroot, parseTruth_boolString]
  rfl

/-- With words for the truth values, the options are read back. -/
theorem StreamOptions.fromXML_words {root : XMLElement} (hscope : v.scope.toString = some scope)
    (hroot : root.children = (v.fields wordString scope).flatMap Prod.snd) :
    StreamOptions.fromXML root .default = some v.readBack := by
  rw [fromXML_fields hscope textOf_wordString hroot]
  simp only [parseTruth_wordString]
  rfl

/-- What is set has texts that are kept, and the members that are not written have their defaults. -/
def StreamOptions.Kept (v : StreamOptions) : Prop :=
  (∀ value ∈ [v.name, v.description, v.owner, v.location, v.metadata], ∀ s ∈ value,
    ¬ isBlankText s.bytes = true ∧ 0x0D ∉ s.bytes) ∧
  v.distributionRuleName = none ∧ v.highAvailability = false

theorem keptText_eq_some_iff {s : CString} : keptText s = some s ↔ ¬ isBlankText s.bytes = true ∧ 0x0D ∉ s.bytes := by
  rw [keptText, textOf]
  by_cases hblank : isBlankText s.bytes = true
  · rw [if_pos hblank, Option.map_none]
    exact iff_of_false (fun h ↦ by cases h) fun h ↦ h.1 hblank
  · have hzero := zero_not_mem_normalizeLineEnds s.nonzero
    have hbytes : untilZero (normalizeLineEnds s.bytes) = normalizeLineEnds s.bytes := untilZero_bytes ⟨_, hzero⟩
    rw [if_neg hblank, Option.map_some, Option.some.injEq, ← normalizeLineEnds_eq_self_iff]
    constructor
    · intro hsame
      refine ⟨hblank, ?_⟩
      rw [← hbytes]
      exact congrArg CString.bytes hsame
    · rintro ⟨-, hsame⟩
      obtain ⟨bytes, nonzero⟩ := s
      rw [stringOf]
      simp only [CString.mk.injEq]
      exact hbytes.trans hsame

theorem bind_keptText_eq_iff {value : Option CString} :
    value.bind keptText = value ↔ ∀ s ∈ value, ¬ isBlankText s.bytes = true ∧ 0x0D ∉ s.bytes := by
  cases value with
  | none => exact iff_of_true rfl fun s hs ↦ by cases hs
  | some value =>
    rw [Option.bind_some, keptText_eq_some_iff]
    exact ⟨fun h s hs ↦ by cases hs; exact h, fun h ↦ h value rfl⟩

/-- The options that are read back are equal to those that were written under this condition. -/
theorem StreamOptions.equals_readBack_iff (v : StreamOptions) : v.readBack.equals v = true ↔ v.Kept := by
  rw [StreamOptions.equals, decide_eq_true_iff, StreamOptions.Kept]
  simp only [StreamOptions.readBack, bind_keptText_eq_iff, List.forall_mem_cons, List.not_mem_nil, false_imp_iff, implies_true,
    and_true, true_and]
  constructor
  · rintro ⟨hname, hdescription, howner, hrule, hlocation, hhigh, hmetadata⟩
    exact ⟨⟨hname, hdescription, howner, hlocation, hmetadata⟩, hrule.symm, hhigh.symm⟩
  · rintro ⟨⟨hname, hdescription, howner, hlocation, hmetadata⟩, hrule, hhigh⟩
    exact ⟨hname, hdescription, howner, hrule.symm, hlocation, hhigh.symm, hmetadata⟩

end DxApi.Xml
