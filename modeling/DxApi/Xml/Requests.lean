import DxApi.Xml.StreamOptions

/-!
# The requests

Every request that the client sends as a document is read as the element that it stands for. No text that a caller
passes, be it the key of a stream, the name of a space or a query, adds an element or changes another text.
-/

namespace DxApi.Xml

open Net Request CString XmlOutput

/-! ## The source -/

/-- What a request says about its stream: the token of the lock, unless there is `NO_LOCK`, and the key. -/
structure StreamHandle where
  lockToken : Option CString
  key : CString

structure SchemaChangeTask where
  polymorphic : Bool
  background : Bool
  schema : Option CString
  defaults : Option (List (CString × CString))
  mappings : Option (List (CString × CString))

/-- The requests about one stream. -/
inductive StreamRequest
  | clearStream (instruments : Option (List CString))
  | deleteStream
  | purgeStream (time : ℤ)
  | truncateStream (time : ℤ) (instruments : Option (List CString))
  | renameStream (newKey : CString)
  | abortBgProcess
  | setSchema (isPolymorphic : Bool) (schema : Option CString)
  | changeSchema (task : SchemaChangeTask)
  | getBgProcess
  | deleteSpaces (spaces : List CString)
  | describeStream
  | listEntities
  | listSpaces
  | lockStream (sid : CString) (write : Bool) (timeout : ℤ)
  | unlockStream (id : CString) (write : Bool)
  | getPeriodicity
  | renameSpace (newName oldName : CString)
  | getSchema
  | getTimeRange (entities : Option (List CString))
  | getSpaceTimeRange (space : CString)

/-- `SubscrChangeAction`. -/
inductive SubscrChangeAction
  | set
  | add
  | remove

def SubscrChangeAction.toString : SubscrChangeAction → CString
  | set => plain "SET"
  | add => plain "ADD"
  | remove => plain "REMOVE"

/-- The requests about one cursor. -/
inductive CursorRequest
  | closeRequest
  | resetRequest
  | changeEntities (changeMode : SubscrChangeAction) (entities : Option (List CString))
  | changeStreams (changeMode : SubscrChangeAction) (streams : Option (List CString))
  | changeTypes (changeMode : SubscrChangeAction) (types : Option (List CString))

structure QueryParameter where
  name : CString
  type : CString
  value : Option CString

/-- What `TickCursorImpl::select` asks for; streams are given by their keys. -/
structure SelectRequest where
  streams : List CString
  entities : Option (List CString)
  types : Option (List CString)
  «from» : ℤ
  «to» : ℤ
  useCompression : Bool
  reverse : Bool
  isBigEndian : Bool
  live : Bool
  minLatency : Bool
  allowLateOutOfOrder : Bool
  realTimeNotification : Bool
  qql : Option CString
  qqlParameters : List QueryParameter
  spaces : Option (List CString)
  serverVersion : ℤ

inductive Request
  | format
  | getServerTime
  | listStreams
  | loadStreams
  | createStreamRequest (key : CString) (options : StreamOptions)
  | createFileStreamRequest (key dataFile : CString)
  | validateQQL (qql : CString)
  | stream (handle : StreamHandle) (request : StreamRequest)
  | cursor (id time : ℤ) (request : CursorRequest)
  | select (request : SelectRequest)

/-- A loop of `add` over some texts; there is none over `NULL`. -/
def addEach (name : TagName) (values : Option (List CString)) : XmlOutput :=
  concat ((values.getD []).map fun value ↦ add name (addText value))

/-- What the constructor of `StreamRequest` adds. -/
def StreamHandle.write (handle : StreamHandle) : XmlOutput :=
  addNullable (fun token ↦ add (tag "token") (addText token)) handle.lockToken ++ add (tag "stream") (addText handle.key)

namespace StreamRequest

def name : StreamRequest → TagName
  | clearStream _ => tag "clearStream"
  | deleteStream => tag "deleteStream"
  | purgeStream _ => tag "purgeStream"
  | truncateStream .. => tag "truncateStream"
  | renameStream _ => tag "renameStream"
  | abortBgProcess => tag "abortBgProcess"
  | setSchema .. => tag "setSchema"
  | changeSchema _ => tag "changeSchema"
  | getBgProcess => tag "getBgProcess"
  | deleteSpaces _ => tag "deleteSpaces"
  | describeStream => tag "describeStream"
  | listEntities => tag "listEntities"
  | listSpaces => tag "listSpaces"
  | lockStream .. => tag "lockStream"
  | unlockStream .. => tag "unlockStream"
  | getPeriodicity => tag "getPeriodicity"
  | renameSpace .. => tag "renameSpace"
  | getSchema => tag "getSchema"
  | getTimeRange _ => tag "getTimeRange"
  | getSpaceTimeRange _ => tag "getSpaceTimeRange"

/-- What the constructors of the requests add. -/
def write : StreamRequest → XmlOutput
  | clearStream instruments => addEach (tag "identities") instruments
  | deleteStream => .empty
  | purgeStream time => add (tag "time") (addNumber time)
  | truncateStream time instruments =>
    add (tag "time") (addNumber time) ++ lineFeed ++ addEach (tag "identities") instruments
  | renameStream newKey => add (tag "key") (addText newKey)
  | abortBgProcess => .empty
  | setSchema isPolymorphic schema =>
    add polymorphicTag (addBool isPolymorphic) ++ add (tag "type") (addText (plain "XML")) ++ lineFeed ++
      add (tag "schema") (addNullable addText schema)
  | changeSchema task =>
    add polymorphicTag (addBool task.polymorphic) ++ add (tag "background") (addBool task.background) ++ lineFeed ++
      add (tag "schema") (addNullable addText task.schema) ++ lineFeed ++
      addItemMap (tag "defaults") nameTag (tag "value") task.defaults ++ lineFeed ++
      addItemMap (tag "mappings") nameTag (tag "value") task.mappings
  | getBgProcess => .empty
  | deleteSpaces spaces => addEach (tag "spaces") (some spaces)
  | describeStream => .empty
  | listEntities => .empty
  | listSpaces => .empty
  | lockStream sid write timeout =>
    add (tag "write") (addBool write) ++ add (tag "timeout") (addNumber timeout) ++ add (tag "sid") (addText sid)
  | unlockStream id write => add (tag "write") (addBool write) ++ add (tag "id") (addText id)
  | getPeriodicity => .empty
  | renameSpace newName oldName => add (tag "newName") (addText newName) ++ add (tag "oldName") (addText oldName)
  | getSchema => .empty
  | getTimeRange entities => addEach (tag "identities") entities
  | getSpaceTimeRange space => add (tag "space") (addText space)

end StreamRequest

namespace CursorRequest

def name : CursorRequest → TagName
  | closeRequest => tag "closeRequest"
  | resetRequest => tag "resetRequest"
  | changeEntities .. => tag "changeEntities"
  | changeStreams .. => tag "changeStreams"
  | changeTypes .. => tag "changeTypes"

/-- What the constructors add, behind the identifier and the time. -/
def write : CursorRequest → XmlOutput
  | closeRequest => .empty
  | resetRequest => .empty
  | changeEntities changeMode entities =>
    add (tag "mode") (addText changeMode.toString) ++ addEach (tag "identities") entities
  | changeStreams changeMode streams =>
    add (tag "mode") (addText changeMode.toString) ++ addItemArray (tag "streams") addText streams
  | changeTypes changeMode types =>
    add (tag "mode") (addText changeMode.toString) ++ addItemArray (tag "types") addText types

end CursorRequest

/-- `operator<<` of `QueryParameter`. -/
def QueryParameter.write (v : QueryParameter) : XmlOutput :=
  addLine nameTag (addText v.name) ++ addLine (tag "type") (addText v.type) ++ addIfSet (tag "value") v.value

namespace SelectRequest

def name (v : SelectRequest) : TagName := if v.qql.isSome then tag "selectQQL" else tag "select"

/-- `operator<<` of `SelectionOptionsImpl`; the types are always transmitted as definitions. -/
def writeOptions (v : SelectRequest) : XmlOutput :=
  addLine (tag "from") (addNumber v.from) ++ addLine (tag "to") (addNumber v.to) ++
    addLine (tag "typeTransmission") (addText (plain "DEFINITION")) ++
    addLine (tag "useCompression") (addBool v.useCompression) ++ addLine (tag "reverse") (addBool v.reverse) ++
    addLine (tag "isBigEndian") (addBool v.isBigEndian) ++ addLine (tag "live") (addBool v.live) ++
    addLine (tag "minLatency") (addBool v.minLatency) ++
    addLine (tag "allowLateOutOfOrder") (addBool v.allowLateOutOfOrder) ++
    addLine (tag "realTimeNotification") (addBool v.realTimeNotification) ++
    v.qql.elim .empty fun qql ↦
      addLine (tag "qql") (addText qql) ++
        if v.qqlParameters.length ≠ 0 then
          addItemArray (tag "parameters") QueryParameter.write (some v.qqlParameters) ++ lineFeed
        else .empty

/-- What `select` adds. -/
def write (v : SelectRequest) : XmlOutput :=
  addItemArray (tag "streams") addText (some v.streams) ++ addItemArray (tag "symbols") addText v.entities ++
    addItemArray (tag "types") addText v.types ++ v.writeOptions ++
    -- `SELECT_SPACE_SUPPORT_VERSION`
    if v.serverVersion ≥ 32 then addItemArray (tag "spaces") addText v.spaces else .empty

end SelectRequest

namespace Request

/-- The document that is sent; there is none for a scope without a name. -/
def document : Request → Option Text
  | format => some (XmlRequest.getRequest ⟨tag "format", none⟩)
  | getServerTime => some (XmlRequest.getRequest ⟨tag "getServerTime", none⟩)
  | listStreams => some (XmlRequest.getRequest ⟨tag "listStreams", none⟩)
  | loadStreams => some (XmlRequest.getRequest ⟨tag "loadStreams", none⟩)
  | createStreamRequest key options =>
    options.write.map fun written ↦ XmlRequest.getRequest
      ⟨tag "createStreamRequest", some (add (tag "key") (addText key) ++ lineFeed ++ add (tag "options") written)⟩
  | createFileStreamRequest key dataFile =>
    some <| XmlRequest.getRequest
      ⟨tag "createFileStreamRequest", some (add (tag "key") (addText key) ++ lineFeed ++ add (tag "dataFile") (addText dataFile))⟩
  | validateQQL qql => some (XmlRequest.getRequest ⟨tag "validateQQL", some (add (tag "qql") (addText qql))⟩)
  | stream handle request => some (XmlRequest.getRequest ⟨request.name, some (handle.write ++ request.write)⟩)
  | cursor id time request =>
    some <| XmlRequest.getRequest
      ⟨request.name, some (add (tag "id") (addNumber id) ++ add (tag "time") (addNumber time) ++ request.write)⟩
  | select request =>
    some (makeRequestHeader request.name false ++ request.write.str ++ closeTag request.name.1 ++ lineFeed.str)

end Request

/-! ## What a request says -/

/-- An element with elements and no text. -/
def node (name : TagName) (elements : List XMLElement) : XMLElement := .mk name.1 [] none elements

def textLeaves (name : TagName) (values : List CString) : List XMLElement := values.map fun value ↦ leaf name value.bytes

def numberLeaf (name : TagName) (value : ℤ) : XMLElement := leaf name (numberText value)

def truthLeaf (name : TagName) (value : Bool) : XMLElement := leaf name (boolString value).bytes

def nullableLeaf (name : TagName) (value : Option CString) : XMLElement := leaf name (value.elim [] CString.bytes)

/-- An array that may be `NULL`. -/
def arrayNode (name : TagName) (values : Option (List CString)) : List XMLElement :=
  values.toList.map fun values ↦ node name (textLeaves itemTag values)

/-- A map that may be `NULL`. -/
def mapNode (name : TagName) (values : Option (List (CString × CString))) : List XMLElement :=
  values.toList.map fun values ↦
    node name (values.map fun entry ↦ node itemTag [leaf nameTag entry.1.bytes, leaf (tag "value") entry.2.bytes])

def StreamHandle.elements (handle : StreamHandle) : List XMLElement :=
  ifSet (tag "token") handle.lockToken ++ [leaf (tag "stream") handle.key.bytes]

def StreamRequest.elements : StreamRequest → List XMLElement
  | clearStream instruments => textLeaves (tag "identities") (instruments.getD [])
  | purgeStream time => [numberLeaf (tag "time") time]
  | truncateStream time instruments => numberLeaf (tag "time") time :: textLeaves (tag "identities") (instruments.getD [])
  | renameStream newKey => [leaf (tag "key") newKey.bytes]
  | setSchema isPolymorphic schema =>
    [truthLeaf polymorphicTag isPolymorphic, leaf (tag "type") (text "XML"), nullableLeaf (tag "schema") schema]
  | changeSchema task =>
    [truthLeaf polymorphicTag task.polymorphic, truthLeaf (tag "background") task.background,
      nullableLeaf (tag "schema") task.schema] ++ mapNode (tag "defaults") task.defaults ++ mapNode (tag "mappings") task.mappings
  | deleteSpaces spaces => textLeaves (tag "spaces") spaces
  | lockStream sid write timeout => [truthLeaf (tag "write") write, numberLeaf (tag "timeout") timeout, leaf (tag "sid") sid.bytes]
  | unlockStream id write => [truthLeaf (tag "write") write, leaf (tag "id") id.bytes]
  | renameSpace newName oldName => [leaf (tag "newName") newName.bytes, leaf (tag "oldName") oldName.bytes]
  | getTimeRange entities => textLeaves (tag "identities") (entities.getD [])
  | getSpaceTimeRange space => [leaf (tag "space") space.bytes]
  | deleteStream | abortBgProcess | getBgProcess | describeStream | listEntities | listSpaces | getPeriodicity | getSchema => []

def CursorRequest.elements : CursorRequest → List XMLElement
  | closeRequest | resetRequest => []
  | changeEntities changeMode entities =>
    leaf (tag "mode") changeMode.toString.bytes :: textLeaves (tag "identities") (entities.getD [])
  | changeStreams changeMode streams => leaf (tag "mode") changeMode.toString.bytes :: arrayNode (tag "streams") streams
  | changeTypes changeMode types => leaf (tag "mode") changeMode.toString.bytes :: arrayNode (tag "types") types

def QueryParameter.element (v : QueryParameter) : XMLElement :=
  node itemTag ([leaf nameTag v.name.bytes, leaf (tag "type") v.type.bytes] ++ ifSet (tag "value") v.value)

def SelectRequest.elements (v : SelectRequest) : List XMLElement :=
  arrayNode (tag "streams") (some v.streams) ++ arrayNode (tag "symbols") v.entities ++ arrayNode (tag "types") v.types ++
    [numberLeaf (tag "from") v.from, numberLeaf (tag "to") v.to, leaf (tag "typeTransmission") (text "DEFINITION"),
      truthLeaf (tag "useCompression") v.useCompression, truthLeaf (tag "reverse") v.reverse, truthLeaf (tag "isBigEndian") v.isBigEndian,
      truthLeaf (tag "live") v.live, truthLeaf (tag "minLatency") v.minLatency, truthLeaf (tag "allowLateOutOfOrder") v.allowLateOutOfOrder,
      truthLeaf (tag "realTimeNotification") v.realTimeNotification] ++
    (if v.qql.isSome then
      ifSet (tag "qql") v.qql ++
        if v.qqlParameters = [] then [] else [node (tag "parameters") (v.qqlParameters.map QueryParameter.element)]
    else []) ++
    if v.serverVersion ≥ 32 then arrayNode (tag "spaces") v.spaces else []

/-- The name of the request, and its elements. -/
def Request.contents : Request → TagName × List XMLElement
  | format => (tag "format", [])
  | getServerTime => (tag "getServerTime", [])
  | listStreams => (tag "listStreams", [])
  | loadStreams => (tag "loadStreams", [])
  | createStreamRequest key options =>
    (tag "createStreamRequest", [leaf (tag "key") key.bytes,
      node (tag "options") ((options.fields boolString (options.scope.toString.getD (plain ""))).flatMap Prod.snd)])
  | createFileStreamRequest key dataFile =>
    (tag "createFileStreamRequest", [leaf (tag "key") key.bytes, leaf (tag "dataFile") dataFile.bytes])
  | validateQQL qql => (tag "validateQQL", [leaf (tag "qql") qql.bytes])
  | stream handle request => (request.name, handle.elements ++ request.elements)
  | cursor id time request => (request.name, [numberLeaf (tag "id") id, numberLeaf (tag "time") time] ++ request.elements)
  | select request => (request.name, request.elements)

/-- The element that the request stands for. -/
def Request.element (request : Request) : XMLElement :=
  .mk request.contents.1.1 (attributesOf requestAttributes) none request.contents.2

/-! ## What is read of a request -/

theorem textOf_of_blank {p : Text} (h : isBlankText p = true) : textOf p = none := if_pos h

theorem readItems_addEach (name : TagName) (values : Option (List CString)) :
    readItems (addEach name values).items = textLeaves name (values.getD []) := by
  rw [addEach, items_concat, textLeaves]
  generalize values.getD [] = values
  induction values with
  | nil => exact readItems_empty
  | cons value values ih => rw [List.map_cons, List.flatMap_cons, readItems_append, readItems_add_text, ih, List.map_cons]; rfl

/-- The items of an array, one after the other. -/
theorem readItems_addItems {α : Type} (content : α → XmlOutput) (items : List α) :
    readItems (addItems content items).items = items.flatMap fun item ↦ readItems (add itemTag (content item)).items := by
  rw [addItems, items_concat]
  induction items with
  | nil => exact readItems_empty
  | cons item items ih =>
    rw [List.map_cons, List.flatMap_cons, readItems_append, items_append, readItems_append, readItems_lineFeed,
      List.append_nil, ih, List.flatMap_cons]

theorem leading_addItems {α : Type} (content : α → XmlOutput) (items : List α) : leading (addItems content items).items = [] := by
  rw [addItems, items_concat]
  cases items with
  | nil => rfl
  | cons item items => rfl

/-- An array is an element with its items. -/
theorem readItems_addItemArray {α : Type} (name : TagName) (content : α → XmlOutput) (items : List α) :
    readItems (addItemArray name content (some items)).items =
      [node name (items.flatMap fun item ↦ readItems (add itemTag (content item)).items)] := by
  rw [addItemArray, items_append, readItems_append, readItems_lineFeed, List.append_nil, readItems_add, leading_addItems,
    readItems_addItems, textOf_of_blank rfl, node]

theorem readItems_addTexts (name : TagName) (values : Option (List CString)) :
    readItems (addItemArray name addText values).items = arrayNode name values := by
  cases values with
  | none => exact readItems_empty
  | some values =>
    simp only [readItems_addItemArray, readItems_add_text]
    rw [arrayNode, Option.toList_some, List.map_cons, List.map_nil, textLeaves, List.map_eq_flatMap]

theorem readItems_addItemMap (name : TagName) (values : Option (List (CString × CString))) :
    readItems (addItemMap name nameTag (tag "value") values).items = mapNode name values := by
  cases values with
  | none => exact readItems_empty
  | some values =>
    have hentry (entry : CString × CString) :
        readItems (add itemTag (add nameTag (addText entry.1) ++ add (tag "value") (addText entry.2))).items =
          [node itemTag [leaf nameTag entry.1.bytes, leaf (tag "value") entry.2.bytes]] := by
      rw [readItems_add, items_append, readItems_append, readItems_add_text, readItems_add_text, node]
      exact congrArg (fun text ↦ [XMLElement.mk _ _ text _]) (textOf_of_blank rfl)
    have hleading (outputs : List XmlOutput) (hall : ∀ output ∈ outputs, ∃ name inner later, output.items = .element name inner :: later) :
        leading (concat outputs).items = [] := by
      rw [items_concat]
      cases outputs with
      | nil => rfl
      | cons output outputs =>
        obtain ⟨name, inner, later, hitems⟩ := hall output List.mem_cons_self
        rw [List.flatMap_cons, hitems]
        rfl
    rw [addItemMap, readItems_add, hleading, textOf_of_blank rfl, mapNode, Option.toList_some, List.map_cons, List.map_nil, node]
    · congr 2
      rw [items_concat]
      induction values with
      | nil => exact readItems_empty
      | cons entry values ih =>
        rw [List.map_cons, List.flatMap_cons, readItems_append, items_append, readItems_append, readItems_lineFeed,
          List.append_nil, hentry, ih, List.map_cons]
        rfl
    · intro output houtput
      obtain ⟨entry, -, rfl⟩ := List.mem_map.mp houtput
      exact ⟨_, _, _, rfl⟩

theorem StreamHandle.readItems_write (handle : StreamHandle) : readItems handle.write.items = handle.elements := by
  obtain ⟨lockToken, key⟩ := handle
  cases lockToken <;> simp [StreamHandle.write, StreamHandle.elements, addNullable, ifSet]

theorem StreamRequest.readItems_write (request : StreamRequest) : readItems request.write.items = request.elements := by
  cases request <;>
    simp [StreamRequest.write, StreamRequest.elements, readItems_addEach, readItems_addItemMap, numberLeaf, truthLeaf, nullableLeaf,
      plain]

theorem CursorRequest.readItems_write (request : CursorRequest) : readItems request.write.items = request.elements := by
  cases request <;> simp [CursorRequest.write, CursorRequest.elements, readItems_addEach, readItems_addTexts]

theorem QueryParameter.readItems_write (v : QueryParameter) :
    readItems (add itemTag v.write).items = [v.element] := by
  have hitems : readItems v.write.items =
      [leaf nameTag v.name.bytes, leaf (tag "type") v.type.bytes] ++ ifSet (tag "value") v.value := by
    simp [QueryParameter.write]
  rw [readItems_add, hitems, QueryParameter.element, node]
  exact congrArg (fun text ↦ [XMLElement.mk _ _ text _]) (textOf_of_blank rfl)

theorem SelectRequest.readItems_write (v : SelectRequest) : readItems v.write.items = v.elements := by
  have hspaces : readItems (if v.serverVersion ≥ 32 then addItemArray (tag "spaces") addText v.spaces else .empty : XmlOutput).items =
      if v.serverVersion ≥ 32 then arrayNode (tag "spaces") v.spaces else [] := by
    split
    · exact readItems_addTexts _ _
    · exact readItems_empty
  have hparameters : readItems (addItemArray (tag "parameters") QueryParameter.write (some v.qqlParameters)).items =
      [node (tag "parameters") (v.qqlParameters.map QueryParameter.element)] := by
    rw [readItems_addItemArray]
    simp only [QueryParameter.readItems_write]
    rw [← List.map_eq_flatMap]
  have hqql : readItems (v.qql.elim .empty fun qql ↦
      addLine (tag "qql") (addText qql) ++
        if v.qqlParameters.length ≠ 0 then
          addItemArray (tag "parameters") QueryParameter.write (some v.qqlParameters) ++ lineFeed
        else .empty : XmlOutput).items =
      if v.qql.isSome then
        ifSet (tag "qql") v.qql ++
          if v.qqlParameters = [] then [] else [node (tag "parameters") (v.qqlParameters.map QueryParameter.element)]
      else [] := by
    cases hset : v.qql with
    | none => exact readItems_empty
    | some qql =>
      by_cases hnone : v.qqlParameters = []
      · simp [hnone, ifSet]
      · have hlength : v.qqlParameters.length ≠ 0 := mt List.length_eq_zero_iff.mp hnone
        simp [hnone, ifSet, hparameters]
  rw [SelectRequest.write, SelectRequest.elements, items_append, readItems_append, hspaces, SelectRequest.writeOptions]
  simp only [items_append, readItems_append, hqql]
  simp [readItems_addTexts, numberLeaf, truthLeaf, plain]

/-- The element of a request whose content begins with an element. -/
theorem XmlRequest.element_of_content {name : TagName} {content : XmlOutput} {elements : List XMLElement}
    (hleading : leading content.items = []) (hitems : readItems content.items = elements) :
    XmlRequest.element ⟨name, some content⟩ = .mk name.1 (attributesOf requestAttributes) none elements := by
  rw [XmlRequest.element]
  simp only [Option.elim_some, hleading, hitems, List.append_nil]
  rw [textOf_of_blank (by decide)]

theorem XmlRequest.element_noContent (name : TagName) :
    XmlRequest.element ⟨name, none⟩ = .mk name.1 (attributesOf requestAttributes) none [] := by
  rw [XmlRequest.element]
  simp only [Option.elim_none]
  rw [readItems, textOf_of_blank rfl]

theorem readDocument_noContent (name : TagName) :
    readDocument (XmlRequest.getRequest ⟨name, none⟩) = .ok (some [.mk name.1 (attributesOf requestAttributes) none []]) :=
  (readDocument_getRequest _).trans (by rw [XmlRequest.element_noContent])

theorem readDocument_elements {name : TagName} {content : XmlOutput} {elements : List XMLElement}
    (hleading : leading content.items = []) (hitems : readItems content.items = elements) :
    readDocument (XmlRequest.getRequest ⟨name, some content⟩) =
      .ok (some [.mk name.1 (attributesOf requestAttributes) none elements]) :=
  (readDocument_getRequest _).trans (by rw [XmlRequest.element_of_content hleading hitems])

/-- The document that creates a stream, for options with a scope that has a name. -/
theorem readDocument_createStream (key : CString) {options : StreamOptions} {written : XmlOutput}
    (hwrite : options.write = some written) :
    readDocument (XmlRequest.getRequest
      ⟨tag "createStreamRequest", some (add (tag "key") (addText key) ++ lineFeed ++ add (tag "options") written)⟩) =
      .ok (some [(Request.createStreamRequest key options).element]) := by
  obtain ⟨scope, hscope, hitems⟩ := StreamOptions.readItems_write hwrite
  have hoptions : readItems (add (tag "options") written).items = [node (tag "options") ((options.fields boolString scope).flatMap Prod.snd)] := by
    have hblank : textOf (leading written.items) = none := by
      apply textOf_of_blank
      obtain ⟨scope', -, rfl⟩ := Option.map_eq_some_iff.mp hwrite
      obtain ⟨name, description, owner, location, bufferOptions, scope, distributionFactor, distributionRuleName,
        duplicatesAllowed, highAvailability, unique, polymorphic, periodicity, metadata⟩ := options
      cases name <;> cases description <;> cases location <;> rfl
    rw [readItems_add, hitems, hblank, node]
  apply readDocument_elements rfl
  rw [items_append, readItems_append, items_append, readItems_append, readItems_add_text, readItems_lineFeed, List.append_nil,
    hoptions, Request.contents, hscope]
  rfl

/-- Each request is read as the element that it stands for, with whatever texts it was called. -/
theorem readDocument_document (request : Request) :
    match request.document with
    | none => ∃ key options, request = .createStreamRequest key options ∧ options.scope = .unknown
    | some document => readDocument document = .ok (some [request.element]) := by
  cases request with
  | format => exact readDocument_noContent (tag "format")
  | getServerTime => exact readDocument_noContent (tag "getServerTime")
  | listStreams => exact readDocument_noContent (tag "listStreams")
  | loadStreams => exact readDocument_noContent (tag "loadStreams")
  | createStreamRequest key options =>
    rw [Request.document]
    cases hwrite : options.write with
    | none =>
      refine ⟨key, options, rfl, ?_⟩
      have hname := Option.map_eq_none_iff.mp hwrite
      cases hscope : options.scope with
      | unknown => rfl
      | _ =>
        rw [hscope] at hname
        cases hname
    | some written => exact readDocument_createStream key hwrite
  | createFileStreamRequest key dataFile => exact readDocument_elements rfl (by simp [Request.contents])
  | validateQQL qql => exact readDocument_elements rfl (by simp [Request.contents])
  | stream handle request =>
    refine readDocument_elements ?_ ?_
    · obtain ⟨lockToken, key⟩ := handle
      cases lockToken <;> rfl
    · rw [items_append, readItems_append, handle.readItems_write, request.readItems_write]
      rfl
  | cursor id time request =>
    refine readDocument_elements rfl ?_
    rw [items_append, readItems_append, request.readItems_write]
    simp [Request.contents, numberLeaf]
  | select request =>
    have hblank : isBlankText lineFeed.str = true := by decide +kernel
    have hread := readDocument_content request.name request.write hblank
    rw [XmlRequest.element_of_content rfl request.readItems_write] at hread
    exact hread

/-- Options that are sent to create a stream are refused by `fromXML` for their truth values. With words for these
they are read back, and are equal to what was sent if they have no blank text, no carriage return, and nothing that
is not written. -/
theorem writtenOptions_readBack (key : CString) (v : StreamOptions) :
    match (Request.createStreamRequest key v).document with
    | none => v.scope = .unknown
    | some document =>
      ∃ root options scope, readDocument document = .ok (some [root]) ∧ root.getText (text "key") = textOf key.bytes ∧
        root.firstChildElement (text "options") = some options ∧ v.scope.toString = some scope ∧
        options.children = (v.fields boolString scope).flatMap Prod.snd ∧ StreamOptions.fromXML options .default = none ∧
        (∀ e : XMLElement, e.children = (v.fields wordString scope).flatMap Prod.snd →
          StreamOptions.fromXML e .default = some v.readBack) ∧
        (v.readBack.equals v = true ↔ v.Kept) := by
  rw [Request.document]
  cases hwrite : v.write with
  | none =>
    have hname := Option.map_eq_none_iff.mp hwrite
    cases hscope : v.scope with
    | unknown => rfl
    | _ =>
      rw [hscope] at hname
      cases hname
  | some written =>
    obtain ⟨scope, hscope, -⟩ := StreamOptions.readItems_write hwrite
    have hoptions : (node (tag "options") ((v.fields boolString (v.scope.toString.getD (plain ""))).flatMap Prod.snd)).children =
        (v.fields boolString scope).flatMap Prod.snd := by
      rw [hscope]
      rfl
    refine ⟨_, _, scope, readDocument_createStream key hwrite, rfl, rfl, hscope, hoptions, ?_, ?_, v.equals_readBack_iff⟩
    · exact StreamOptions.fromXML_digits hscope hoptions
    · exact fun e he ↦ StreamOptions.fromXML_words hscope he

end DxApi.Xml
