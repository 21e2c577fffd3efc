import DxApi.Loader.TickLoader

/-!
# The upload stream

What a loader is for: an upload is a sequence of instrument records and message blocks. `Upload` is
the abstract state of one, with its bytes as a function of it, and `Receiver` is the other end of
the connection, which takes the bytes one by one. The last theorem says that the receiver finds the
instruments and the messages of the upload, and in what position it is afterwards.
-/

namespace DxApi.Loader

open ByteOrder

/-! ## Uploads -/

/-- A symbol whose length fits in its record. -/
abbrev Symbol := {name : List UInt8 // name.length < 0xFFFF}

/-- The body of a message record; the longest length would be read as the end of the block. -/
abbrev Body := {body : List UInt8 // body.length < messageBlockTerminatorRecord}

/-- A record of an upload at the top level. -/
inductive Block
  | instrument (symbol : Symbol)
  | messages (bodies : List Body)

/-- A length and the bytes of a message. -/
def Body.encode (body : Body) : List UInt8 := bigEndian 4 body.val.length ++ body.val

namespace Block

def encode : Block → List UInt8
  | instrument symbol =>
    instrumentBlockId :: (bigEndian 2 symbol.val.length ++ symbol.val)
  | messages bodies =>
    messageBlockId :: (bodies.flatMap Body.encode ++ bigEndian 4 messageBlockTerminatorRecord)

/-- The instrument that the block registers. -/
def symbols : Block → List (List UInt8)
  | instrument symbol => [symbol.val]
  | messages _ => []

/-- The messages in the block. -/
def messageBodies : Block → List (List UInt8)
  | instrument _ => []
  | messages bodies => bodies.map Subtype.val

end Block

/-- What has been written so far: whole blocks, and the messages of a block that is still open. -/
structure Upload where
  blocks : List Block
  current : Option (List Body)

namespace Upload

def empty : Upload := ⟨[], none⟩

def encode (u : Upload) : List UInt8 :=
  u.blocks.flatMap Block.encode ++
    match u.current with
    | none => []
    | some bodies => messageBlockId :: bodies.flatMap Body.encode

/-- The instruments registered so far, in order. -/
def symbols (u : Upload) : List (List UInt8) := u.blocks.flatMap Block.symbols

/-- The messages written so far, in order. -/
def messages (u : Upload) : List (List UInt8) :=
  u.blocks.flatMap Block.messageBodies ++ (u.current.getD []).map Subtype.val

def openBlock (u : Upload) : Upload := { u with current := some [] }

def putMessage (u : Upload) (body : Body) : Upload :=
  { u with current := some (u.current.getD [] ++ [body]) }

def closeBlock (u : Upload) : Upload :=
  ⟨u.blocks ++ [.messages (u.current.getD [])], none⟩

def putInstrument (u : Upload) (symbol : Symbol) : Upload :=
  { u with blocks := u.blocks ++ [.instrument symbol] }

variable {u : Upload} {bodies : List Body}

theorem encode_openBlock (h : u.current = none) :
    u.openBlock.encode = u.encode ++ [messageBlockId] := by
  simp [encode, openBlock, h]

theorem encode_putMessage (h : u.current = some bodies) (body : Body) :
    (u.putMessage body).encode = u.encode ++ body.encode := by
  simp [encode, putMessage, h]

theorem encode_closeBlock (h : u.current = some bodies) :
    u.closeBlock.encode = u.encode ++ bigEndian 4 messageBlockTerminatorRecord := by
  simp [encode, closeBlock, h, Block.encode]

theorem encode_putInstrument (h : u.current = none) (symbol : Symbol) :
    (u.putInstrument symbol).encode = u.encode ++ (Block.instrument symbol).encode := by
  simp [encode, putInstrument, h]

theorem symbols_openBlock : u.openBlock.symbols = u.symbols := rfl

theorem symbols_putMessage (body : Body) : (u.putMessage body).symbols = u.symbols := rfl

theorem symbols_closeBlock : u.closeBlock.symbols = u.symbols := by
  simp [symbols, closeBlock, Block.symbols]

theorem symbols_putInstrument (symbol : Symbol) :
    (u.putInstrument symbol).symbols = u.symbols ++ [symbol.val] := by
  simp [symbols, putInstrument, Block.symbols]

theorem messages_openBlock (h : u.current = none) : u.openBlock.messages = u.messages := by
  simp [messages, openBlock, h]

theorem messages_putMessage (h : u.current = some bodies) (body : Body) :
    (u.putMessage body).messages = u.messages ++ [body.val] := by
  simp [messages, putMessage, h]

theorem messages_closeBlock : u.closeBlock.messages = u.messages := by
  simp [messages, closeBlock, Block.messageBodies]

theorem messages_putInstrument (symbol : Symbol) :
    (u.putInstrument symbol).messages = u.messages := by
  simp [messages, putInstrument, Block.messageBodies]

end Upload

/-! ## The receiver -/

/-- What the receiver expects next: a block, or the rest of a symbol or of a message record of which
some bytes have arrived. -/
inductive Position
  | block
  | symbolLength (arrived : List UInt8)
  | symbol (missing : ℕ) (arrived : List UInt8)
  | recordLength (arrived : List UInt8)
  | record (missing : ℕ) (arrived : List UInt8)
  | finished
  | invalid
  deriving DecidableEq, Repr

/-- A receiver with what it has found so far. -/
structure Receiver where
  position : Position
  instruments : List (List UInt8)
  messages : List (List UInt8)
  deriving DecidableEq, Repr

namespace Receiver

def start : Receiver := ⟨.block, [], []⟩

/-- A symbol of which `missing` bytes are still to come. -/
def expectSymbol (r : Receiver) (missing : ℕ) (arrived : List UInt8) : Receiver :=
  if missing = 0 then
    { r with position := .block, instruments := r.instruments ++ [arrived] }
  else
    { r with position := .symbol missing arrived }

/-- A message of which `missing` bytes are still to come. -/
def expectRecord (r : Receiver) (missing : ℕ) (arrived : List UInt8) : Receiver :=
  if missing = 0 then
    { r with position := .recordLength [], messages := r.messages ++ [arrived] }
  else
    { r with position := .record missing arrived }

def read (r : Receiver) (byte : UInt8) : Receiver :=
  match r.position with
  | .block =>
    if byte = instrumentBlockId then { r with position := .symbolLength [] }
    else if byte = messageBlockId then { r with position := .recordLength [] }
    else if byte = terminatorBlockId then { r with position := .finished }
    else { r with position := .invalid }
  | .symbolLength arrived =>
    if arrived.length < 1 then { r with position := .symbolLength (arrived ++ [byte]) }
    else r.expectSymbol (ofBigEndian (arrived ++ [byte])) []
  | .symbol missing arrived => r.expectSymbol (missing - 1) (arrived ++ [byte])
  | .recordLength arrived =>
    if arrived.length < 3 then { r with position := .recordLength (arrived ++ [byte]) }
    else if ofBigEndian (arrived ++ [byte]) = messageBlockTerminatorRecord then
      { r with position := .block }
    else r.expectRecord (ofBigEndian (arrived ++ [byte])) []
  | .record missing arrived => r.expectRecord (missing - 1) (arrived ++ [byte])
  | .finished | .invalid => { r with position := .invalid }

/-- A receiver after some more bytes. -/
def readAll (r : Receiver) (data : List UInt8) : Receiver := data.foldl read r

variable {r : Receiver}

theorem readAll_append (first second : List UInt8) :
    r.readAll (first ++ second) = (r.readAll first).readAll second :=
  List.foldl_append

theorem readAll_cons (byte : UInt8) (data : List UInt8) :
    r.readAll (byte :: data) = (r.read byte).readAll data := rfl

/-- The rest of a symbol arrives. -/
theorem readAll_symbol (data arrived : List UInt8) :
    (r.expectSymbol data.length arrived).readAll data =
      { r with position := .block, instruments := r.instruments ++ [arrived ++ data] } := by
  induction data generalizing arrived with
  | nil =>
    rw [List.append_nil]
    rfl
  | cons byte data ih =>
    have hstep : (r.expectSymbol (byte :: data).length arrived).read byte =
        r.expectSymbol data.length (arrived ++ [byte]) := rfl
    rw [readAll_cons, hstep, ih, List.append_assoc]
    rfl

/-- The rest of a message arrives. -/
theorem readAll_record (data arrived : List UInt8) :
    (r.expectRecord data.length arrived).readAll data =
      { r with position := .recordLength [], messages := r.messages ++ [arrived ++ data] } := by
  induction data generalizing arrived with
  | nil =>
    rw [List.append_nil]
    rfl
  | cons byte data ih =>
    have hstep : (r.expectRecord (byte :: data).length arrived).read byte =
        r.expectRecord data.length (arrived ++ [byte]) := rfl
    rw [readAll_cons, hstep, ih, List.append_assoc]
    rfl

/-- The two bytes of a symbol's length arrive. -/
theorem readAll_symbolLength {data : List UInt8} (h : data.length = 2) :
    ({ r with position := .symbolLength [] } : Receiver).readAll data =
      r.expectSymbol (ofBigEndian data) [] := by
  match data, h with
  | [first, second], _ => rfl

/-- The four bytes of a record's length arrive. -/
theorem readAll_recordLength {data : List UInt8} (h : data.length = 4) :
    ({ r with position := .recordLength [] } : Receiver).readAll data =
      if ofBigEndian data = messageBlockTerminatorRecord then { r with position := .block }
      else r.expectRecord (ofBigEndian data) [] := by
  match data, h with
  | [first, second, third, fourth], _ => rfl

theorem readAll_body (body : Body) :
    ({ r with position := .recordLength [] } : Receiver).readAll body.encode =
      { r with position := .recordLength [], messages := r.messages ++ [body.val] } := by
  have hlt : body.val.length < 0xFFFFFFFF := body.property
  have hlength : ofBigEndian (bigEndian 4 body.val.length) = body.val.length :=
    ofBigEndian_bigEndian (by omega)
  have hother : ¬ body.val.length = messageBlockTerminatorRecord := by
    unfold messageBlockTerminatorRecord
    omega
  rw [Body.encode, readAll_append, readAll_recordLength (length_bigEndian _ _), hlength,
    if_neg hother, readAll_record, List.nil_append]

theorem readAll_bodies (bodies : List Body) :
    ({ r with position := .recordLength [] } : Receiver).readAll (bodies.flatMap Body.encode) =
      { r with
        position := .recordLength []
        messages := r.messages ++ bodies.map Subtype.val } := by
  induction bodies generalizing r with
  | nil => simp [readAll]
  | cons body bodies ih =>
    rw [List.flatMap_cons, readAll_append, readAll_body]
    have hrest := @ih { r with messages := r.messages ++ [body.val] }
    simp only at hrest
    rw [hrest, List.map_cons, List.append_assoc, List.singleton_append]

theorem readAll_block (h : r.position = .block) (block : Block) :
    r.readAll block.encode = { r with
      position := .block
      instruments := r.instruments ++ block.symbols
      messages := r.messages ++ block.messageBodies } := by
  cases block with
  | instrument symbol =>
    have hlt := symbol.property
    have hlength : ofBigEndian (bigEndian 2 symbol.val.length) = symbol.val.length :=
      ofBigEndian_bigEndian (by omega)
    have hid : r.read instrumentBlockId = { r with position := .symbolLength [] } := by
      rw [read, h]
      rfl
    rw [Block.encode, readAll_cons, hid, readAll_append, readAll_symbolLength (length_bigEndian _ _),
      hlength, readAll_symbol, List.nil_append]
    simp only [Block.symbols, Block.messageBodies, List.append_nil]
  | messages bodies =>
    have hid : r.read messageBlockId = { r with position := .recordLength [] } := by
      rw [read, h]
      rfl
    have hend : ofBigEndian (bigEndian 4 messageBlockTerminatorRecord) =
        messageBlockTerminatorRecord :=
      ofBigEndian_bigEndian (by unfold messageBlockTerminatorRecord; omega)
    rw [Block.encode, readAll_cons, hid, readAll_append, readAll_bodies]
    have hlast := readAll_recordLength (r := { r with messages := r.messages ++ bodies.map Subtype.val })
      (length_bigEndian 4 messageBlockTerminatorRecord)
    rw [hend, if_pos rfl] at hlast
    simp only at hlast
    rw [hlast]
    simp only [Block.symbols, Block.messageBodies, List.append_nil]

theorem readAll_blocks (h : r.position = .block) (blocks : List Block) :
    r.readAll (blocks.flatMap Block.encode) = { r with
      position := .block
      instruments := r.instruments ++ blocks.flatMap Block.symbols
      messages := r.messages ++ blocks.flatMap Block.messageBodies } := by
  induction blocks generalizing r with
  | nil =>
    simp only [List.flatMap_nil, List.append_nil, ← h]
    rfl
  | cons block blocks ih =>
    rw [List.flatMap_cons, readAll_append, readAll_block h, ih rfl]
    simp only [List.flatMap_cons, List.append_assoc]

/-- A receiver that is given whole blocks and a terminator has nothing left to expect. -/
theorem readAll_finished (blocks : List Block) :
    (start.readAll (blocks.flatMap Block.encode ++ [terminatorBlockId])).position = .finished := by
  have hstart : start.position = .block := rfl
  rw [readAll_append, readAll_blocks hstart]
  rfl

/-- A receiver that is given an upload finds its instruments and messages. -/
theorem readAll_upload (u : Upload) :
    start.readAll u.encode = {
      position := if u.current.isSome then .recordLength [] else .block
      instruments := u.symbols
      messages := u.messages } := by
  have hstart : start.position = .block := rfl
  rw [Upload.encode, readAll_append, readAll_blocks hstart, Upload.symbols, Upload.messages]
  cases u.current with
  | none => simp [readAll, start]
  | some bodies =>
    rw [readAll_cons]
    have hid : ∀ instruments messages : List (List UInt8),
        (⟨.block, instruments, messages⟩ : Receiver).read messageBlockId =
          ⟨.recordLength [], instruments, messages⟩ := fun _ _ ↦ rfl
    rw [hid]
    have hbodies := @readAll_bodies ⟨.recordLength [], start.instruments ++ u.blocks.flatMap Block.symbols,
      start.messages ++ u.blocks.flatMap Block.messageBodies⟩ bodies
    simp only at hbodies
    rw [hbodies]
    simp [start]

end Receiver

end DxApi.Loader
