import DxApi.Session.Input

/-!
# The messages of the server

Every sequence of bytes from the server is a sequence of messages and an ending: the session is closed, a
token is not known, or the connection is closed between two messages or inside one.
-/

namespace DxApi.Session.HandlerThread

open Exec ByteOrder Decoding Net

/-! ## Messages -/

/-- A text as `readUTF8` finds it. -/
structure Utf8Text where
  content : Option (List UInt8)
  fits : ∀ text ∈ content, text.length < 0xFFFF

namespace Utf8Text

def encode (t : Utf8Text) : List UInt8 := t.content.elim (bigEndian 2 0xFFFF) encodeKey

/-- The string that is read. -/
def value (t : Utf8Text) : List UInt8 := t.content.getD []

end Utf8Text

/-- What follows the number of the request in a definition of streams. -/
inductive Definitions
  | empty
  | refused (sz : ℕ) (hlarge : 0x7FFFFFFF < sz) (hfits : sz < 256 ^ 4)
  | document (xml : List UInt8) (hpos : xml ≠ []) (hfits : xml.length ≤ 0x7FFFFFFF)

namespace Definitions

/-- The size field, as an unsigned number. -/
def size : Definitions → ℕ
  | empty => 0
  | refused sz _ _ => sz
  | document xml _ _ => xml.length

/-- What follows the size. -/
def data : Definitions → List UInt8
  | document xml _ _ => xml
  | _ => []

def encode (definitions : Definitions) : List UInt8 := bigEndian 4 definitions.size ++ definitions.data

/-- The definitions, if none of them is refused. -/
def streams : Definitions → Option (List StreamInfo)
  | empty => some []
  | refused _ _ _ => none
  | document xml _ _ =>
    match Xml.readDocument xml with
    | .ok (some response) => (Xml.getStreams response).map (List.map convertInfo)
    | _ => none

/-- No text of the document that is asked for has a broken reference to a character. -/
def Readable : Definitions → Prop
  | document xml _ _ => Xml.readDocument xml ≠ .ok none
  | _ => True

end Definitions

/-- What follows the key in a property of a stream. -/
inductive PropertyValue
  | text (property : UInt8) (h : property.toNat ∈ textProperties) (param : Utf8Text)
  | schema (isPolymorphic : UInt8) (param : Utf8Text)
  | unread (property : UInt8) (h : property.toNat ∉ textProperties) (hschema : property.toNat ≠ schemaProperty)

def PropertyValue.encode : PropertyValue → List UInt8
  | text property _ param => property :: param.encode
  | schema isPolymorphic param => UInt8.ofNat schemaProperty :: isPolymorphic :: param.encode
  | unread property _ _ => [property]

inductive ServerMessage
  | streamPropertyChanged (key : Utf8Text) (property : UInt8)
  | streamDeleted (key : Utf8Text)
  | streamCreated (key : Utf8Text)
  | streamRenamed (oldKey newKey : Utf8Text)
  | streamsDefinition (requestId : UInt64) (definitions : Definitions)
  | streamProperty (requestId : UInt64) (key : Utf8Text) (value : PropertyValue)
  | streamsChanged

namespace ServerMessage

def code : ServerMessage → ℕ
  | streamPropertyChanged _ _ => 11
  | streamDeleted _ => 12
  | streamCreated _ => 13
  | streamRenamed _ _ => 14
  | streamsDefinition _ _ => 15
  | streamProperty _ _ _ => 16
  | streamsChanged => 19

/-- What follows the code. -/
def body : ServerMessage → List UInt8
  | streamPropertyChanged key property => key.encode ++ [property]
  | streamDeleted key => key.encode
  | streamCreated key => key.encode
  | streamRenamed oldKey newKey => oldKey.encode ++ newKey.encode
  | streamsDefinition requestId definitions => bigEndian 8 requestId.toNat ++ definitions.encode
  | streamProperty requestId key value => bigEndian 8 requestId.toNat ++ (key.encode ++ value.encode)
  | streamsChanged => []

def encode (message : ServerMessage) : List UInt8 := bigEndian 4 message.code ++ message.body

end ServerMessage

/-- The codes of the messages. -/
def messageCodes : List ℕ := [11, 12, 13, 14, 15, 16, 19]

/-- What comes behind the last message that is read. -/
inductive Ending
  | disconnected (part : List UInt8) (h : part.length < 4)
  | cut (message : ServerMessage) (part : List UInt8) (h : EndsBefore part message.body)
  | sessionClosed (rest : List UInt8)
  | unexpectedToken (token : ℕ) (h : token < 256 ^ 4) (hunknown : token ≠ 17 ∧ token ∉ messageCodes) (rest : List UInt8)

def Ending.encode : Ending → List UInt8
  | disconnected part _ => part
  | cut message part _ => bigEndian 4 message.code ++ part
  | sessionClosed rest => bigEndian 4 17 ++ rest
  | unexpectedToken token _ _ rest => bigEndian 4 token ++ rest

/-! ## What the reads find -/

theorem decodes_read {size value : ℕ} (h : value < 256 ^ size) :
    Decodes .disconnected (read size) (bigEndian size value) value := by
  have htake : Decodes .disconnected (take ThreadError.disconnected (bigEndian size value).length) (bigEndian size value)
      (bigEndian size value) := decodes_take _
  rw [length_bigEndian] at htake
  have hread := htake.bind_pure ofBigEndian
  rwa [ofBigEndian_bigEndian h] at hread

theorem decodes_readByte (byte : UInt8) : Decodes .disconnected (read 1) [byte] byte.toNat := by
  have hread : Decodes .disconnected (read 1) (bigEndian 1 byte.toNat) byte.toNat := decodes_read byte.toNat_lt
  rwa [bigEndian_one] at hread

theorem decodes_readId (requestId : UInt64) : Decodes .disconnected (read 8) (bigEndian 8 requestId.toNat) requestId.toNat :=
  decodes_read requestId.toNat_lt

theorem decodes_readUTF8 (t : Utf8Text) : Decodes .disconnected readUTF8 t.encode t.value := by
  obtain ⟨content, fits⟩ := t
  rw [readUTF8]
  cases content with
  | none =>
    have hnone : Utf8Text.encode ⟨none, fits⟩ = bigEndian 2 0xFFFF ++ [] := (List.append_nil _).symm
    rw [hnone]
    apply (decodes_read (by decide)).bind
    exact decodes_pure []
  | some text =>
    have hlt := fits text rfl
    apply (decodes_read (by omega)).bind
    rw [if_pos (by omega)]
    exact decodes_take text

/-- The part of a property that is read for its value. -/
theorem decodes_readProperty (requestId : UInt64) (key : Utf8Text) (value : PropertyValue) :
    Decodes .disconnected readProperty (bigEndian 8 requestId.toNat ++ (key.encode ++ value.encode)) () := by
  apply (decodes_readId requestId).bind
  apply (decodes_readUTF8 key).bind
  cases value with
  | text property h param =>
    apply (decodes_readByte property).bind
    rw [if_pos h]
    exact (decodes_readUTF8 param).bind_pure fun _ ↦ ()
  | schema isPolymorphic param =>
    apply (decodes_readByte (UInt8.ofNat schemaProperty)).bind
    apply (decodes_readByte isPolymorphic).bind
    exact (decodes_readUTF8 param).bind_pure fun _ ↦ ()
  | unread property h hschema =>
    apply (decodes_readByte property).bind
    rw [if_neg h, if_neg hschema]
    exact decodes_pure ()

theorem Definitions.size_lt (definitions : Definitions) : definitions.size < 256 ^ 4 := by
  cases definitions with
  | empty => exact (by decide : 0 < 256 ^ 4)
  | refused sz hlarge hfits => exact hfits
  | document xml hpos hfits => exact Nat.lt_of_le_of_lt hfits (by decide)

/-- Definitions are read as they are parsed; a document that cannot be parsed was read whole. -/
theorem readStreams_whole (requestId : UInt64) {definitions : Definitions} (hreadable : definitions.Readable) (rest : List UInt8) :
    readStreams (bigEndian 8 requestId.toNat ++ definitions.encode ++ rest) =
      definitions.streams.elim (.error .runtimeError rest) fun newStreams ↦ .ok newStreams rest := by
  have hid := (decodes_readId requestId).whole (definitions.encode ++ rest)
  have hsize := (decodes_read definitions.size_lt).whole (definitions.data ++ rest)
  rw [readStreams, List.append_assoc, run_bind_of_ok hid, Definitions.encode, List.append_assoc, run_bind_of_ok hsize]
  cases definitions with
  | empty => rfl
  | refused sz hlarge hfits =>
    rw [Definitions.size, if_neg (by omega), if_pos hlarge]
    rfl
  | document xml hpos hfits =>
    have hlength : xml.length ≠ 0 := mt List.length_eq_zero_iff.mp hpos
    rw [Definitions.size, if_neg hlength, if_neg (by omega), Definitions.data, run_bind_of_ok ((decodes_take xml).whole rest),
      Definitions.streams, parseStreams]
    cases hdocument : Xml.readDocument xml with
    | error error => rfl
    | ok found =>
      cases found with
      | none => exact absurd hdocument hreadable
      | some response =>
        dsimp only
        cases Xml.getStreams response <;> rfl

theorem readStreams_cut (requestId : UInt64) (definitions : Definitions) {input : List UInt8}
    (h : EndsBefore input (bigEndian 8 requestId.toNat ++ definitions.encode)) :
    readStreams input = .error .disconnected [] := by
  have hid := decodes_readId requestId
  have hsize := decodes_read definitions.size_lt
  rw [readStreams]
  rcases endsBefore_append h with hfirst | ⟨sized, rfl, hsized⟩
  · exact run_bind_of_error (hid.part _ hfirst)
  · rw [run_bind_of_ok (hid.whole _)]
    rcases endsBefore_append hsized with hfirst | ⟨found, rfl, hfound⟩
    · exact run_bind_of_error (hsize.part _ hfirst)
    · rw [run_bind_of_ok (hsize.whole _)]
      cases definitions with
      | empty => exact absurd hfound not_endsBefore_nil
      | refused sz hlarge hfits => exact absurd hfound not_endsBefore_nil
      | document xml hpos hfits =>
        have hlength : xml.length ≠ 0 := mt List.length_eq_zero_iff.mp hpos
        rw [Definitions.size, if_neg hlength, if_neg (by omega)]
        exact run_bind_of_error ((decodes_take xml).part _ hfound)

/-! ## Every input -/

theorem bigEndian_ofBigEndian (data : List UInt8) : bigEndian data.length (ofBigEndian data) = data := by
  have hlittle (data : List UInt8) : littleEndian data.length (ofLittleEndian data) = data := by
    induction data with
    | nil => rfl
    | cons byte data ih =>
      have hbyte : UInt8.ofNat (byte.toNat + 256 * ofLittleEndian data) = byte := by
        apply UInt8.toNat_inj.mp
        rw [UInt8.toNat_ofNat', Nat.add_mul_mod_self_left, Nat.mod_eq_of_lt byte.toNat_lt]
      have hrest : (byte.toNat + 256 * ofLittleEndian data) / 256 = ofLittleEndian data := by
        have hlt := byte.toNat_lt
        omega
      rw [ofLittleEndian, List.length_cons, littleEndian, hbyte, hrest, ih]
  have hreverse := hlittle data.reverse
  rw [List.length_reverse] at hreverse
  rw [bigEndian, ofBigEndian, hreverse, List.reverse_reverse]

theorem exhaustive_utf8 : Exhaustive (Set.range Utf8Text.encode) := by
  let next (first : List UInt8) : Set (List UInt8) :=
    if ofBigEndian first = 0xFFFF then {[]} else { bytes | bytes.length = ofBigEndian first }
  have hnext (first : List UInt8) : Exhaustive (next first) := by
    by_cases hnone : ofBigEndian first = 0xFFFF
    · simp only [next, if_pos hnone]
      exact exhaustive_singleton_nil
    · simp only [next, if_neg hnone]
      exact exhaustive_length _
  apply ((exhaustive_length 2).followed fun first _ ↦ hnext first).mono
  rintro bytes ⟨first, hfirst, second, hsecond, rfl⟩
  have hlt := ofBigEndian_lt first
  have hback := bigEndian_ofBigEndian first
  rw [show first.length = 2 from hfirst] at hlt hback
  by_cases hnone : ofBigEndian first = 0xFFFF
  · simp only [next, if_pos hnone, Set.mem_singleton_iff] at hsecond
    refine ⟨⟨none, fun _ h ↦ nomatch h⟩, ?_⟩
    rw [hsecond, List.append_nil, ← hback, hnone]
    rfl
  · simp only [next, if_neg hnone, Set.mem_ofPred_eq] at hsecond
    refine ⟨⟨some second, ?_⟩, ?_⟩
    · rintro text ⟨⟩
      omega
    · change bigEndian 2 second.length ++ second = _
      rw [hsecond, hback]

theorem exhaustive_definitions : Exhaustive (Set.range Definitions.encode) := by
  let next (first : List UInt8) : Set (List UInt8) :=
    if ofBigEndian first = 0 ∨ 0x7FFFFFFF < ofBigEndian first then {[]} else { bytes | bytes.length = ofBigEndian first }
  have hnext (first : List UInt8) : Exhaustive (next first) := by
    by_cases hempty : ofBigEndian first = 0 ∨ 0x7FFFFFFF < ofBigEndian first
    · simp only [next, if_pos hempty]
      exact exhaustive_singleton_nil
    · simp only [next, if_neg hempty]
      exact exhaustive_length _
  apply ((exhaustive_length 4).followed fun first _ ↦ hnext first).mono
  rintro bytes ⟨first, hfirst, second, hsecond, rfl⟩
  have hlt := ofBigEndian_lt first
  have hback := bigEndian_ofBigEndian first
  rw [show first.length = 4 from hfirst] at hlt hback
  by_cases hempty : ofBigEndian first = 0 ∨ 0x7FFFFFFF < ofBigEndian first
  · simp only [next, if_pos hempty, Set.mem_singleton_iff] at hsecond
    rw [hsecond, List.append_nil, ← hback]
    rcases hempty with hzero | hlarge
    · refine ⟨.empty, ?_⟩
      rw [hzero]
      exact List.append_nil _
    · exact ⟨.refused _ hlarge hlt, List.append_nil _⟩
  · simp only [next, if_neg hempty, Set.mem_ofPred_eq] at hsecond
    have hpos : second ≠ [] := by
      rintro rfl
      exact hempty (.inl hsecond.symm)
    refine ⟨.document second hpos (by omega), ?_⟩
    change bigEndian 4 second.length ++ second = _
    rw [hsecond, hback]

theorem exhaustive_propertyValue : Exhaustive (Set.range PropertyValue.encode) := by
  let next (first : List UInt8) : Set (List UInt8) :=
    if ofBigEndian first ∈ textProperties then Set.range Utf8Text.encode
    else if ofBigEndian first = schemaProperty then followed { bytes | bytes.length = 1 } fun _ ↦ Set.range Utf8Text.encode
    else {[]}
  have hnext (first : List UInt8) : Exhaustive (next first) := by
    simp only [next]
    split_ifs
    · exact exhaustive_utf8
    · exact (exhaustive_length 1).followed fun _ _ ↦ exhaustive_utf8
    · exact exhaustive_singleton_nil
  apply ((exhaustive_length 1).followed fun first _ ↦ hnext first).mono
  rintro bytes ⟨first, hfirst, second, hsecond, rfl⟩
  obtain ⟨property, rfl⟩ := List.length_eq_one_iff.mp hfirst
  have hvalue : ofBigEndian [property] = property.toNat := by simp [ofBigEndian, ofLittleEndian]
  simp only [next, hvalue] at hsecond
  split_ifs at hsecond with htext hschema
  · obtain ⟨param, rfl⟩ := hsecond
    exact ⟨.text property htext param, rfl⟩
  · obtain ⟨polymorphic, hpolymorphic, -, ⟨param, rfl⟩, rfl⟩ := hsecond
    obtain ⟨isPolymorphic, rfl⟩ := List.length_eq_one_iff.mp hpolymorphic
    refine ⟨.schema isPolymorphic param, ?_⟩
    rw [PropertyValue.encode, ← hschema, UInt8.ofNat_toNat]
    rfl
  · rw [hsecond]
    exact ⟨.unread property htext hschema, rfl⟩

/-- What may follow a code. -/
def bodies (code : ℕ) : Set (List UInt8) := { bytes | ∃ message : ServerMessage, message.code = code ∧ message.body = bytes }

theorem exhaustive_bodies {code : ℕ} (h : code ∈ messageCodes) : Exhaustive (bodies code) := by
  have hid : Exhaustive (Set.range fun requestId : UInt64 ↦ bigEndian 8 requestId.toNat) := by
    apply (exhaustive_length 8).mono
    intro bytes hlength
    have hlt := ofBigEndian_lt bytes
    have hback := bigEndian_ofBigEndian bytes
    rw [show bytes.length = 8 from hlength] at hlt hback
    refine ⟨UInt64.ofNat (ofBigEndian bytes), ?_⟩
    change bigEndian 8 (UInt64.ofNat (ofBigEndian bytes)).toNat = bytes
    rw [UInt64.toNat_ofNat_of_lt' hlt, hback]
  simp only [messageCodes, List.mem_cons, List.not_mem_nil, or_false] at h
  rcases h with rfl | rfl | rfl | rfl | rfl | rfl | rfl
  · apply (exhaustive_utf8.followed fun _ _ ↦ exhaustive_length 1).mono
    rintro bytes ⟨-, ⟨key, rfl⟩, second, hsecond, rfl⟩
    obtain ⟨property, rfl⟩ := List.length_eq_one_iff.mp hsecond
    exact ⟨.streamPropertyChanged key property, rfl, rfl⟩
  · apply exhaustive_utf8.mono
    rintro bytes ⟨key, rfl⟩
    exact ⟨.streamDeleted key, rfl, rfl⟩
  · apply exhaustive_utf8.mono
    rintro bytes ⟨key, rfl⟩
    exact ⟨.streamCreated key, rfl, rfl⟩
  · apply (exhaustive_utf8.followed fun _ _ ↦ exhaustive_utf8).mono
    rintro bytes ⟨-, ⟨oldKey, rfl⟩, -, ⟨newKey, rfl⟩, rfl⟩
    exact ⟨.streamRenamed oldKey newKey, rfl, rfl⟩
  · apply (hid.followed fun _ _ ↦ exhaustive_definitions).mono
    rintro bytes ⟨-, ⟨requestId, rfl⟩, -, ⟨definitions, rfl⟩, rfl⟩
    exact ⟨.streamsDefinition requestId definitions, rfl, rfl⟩
  · apply (hid.followed fun _ _ ↦ exhaustive_utf8.followed fun _ _ ↦ exhaustive_propertyValue).mono
    rintro bytes ⟨-, ⟨requestId, rfl⟩, -, ⟨-, ⟨key, rfl⟩, -, ⟨value, rfl⟩, rfl⟩, rfl⟩
    exact ⟨.streamProperty requestId key value, rfl, rfl⟩
  · apply exhaustive_singleton_nil.mono
    rintro bytes rfl
    exact ⟨.streamsChanged, rfl, rfl⟩

/-- Whatever the server sends is messages and an ending. -/
theorem exists_messages (input : List UInt8) :
    ∃ (messages : List ServerMessage) (ending : Ending), input = messages.flatMap ServerMessage.encode ++ ending.encode := by
  induction hlength : input.length using Nat.strong_induction_on generalizing input with
  | _ n ih =>
    rcases Nat.lt_or_ge input.length 4 with hshort | hlong
    · exact ⟨[], .disconnected input hshort, rfl⟩
    · have hlt := ofBigEndian_lt (input.take 4)
      have hback := bigEndian_ofBigEndian (input.take 4)
      rw [List.length_take_of_le hlong] at hlt hback
      have hinput : input = bigEndian 4 (ofBigEndian (input.take 4)) ++ input.drop 4 := by
        rw [hback, List.take_append_drop]
      generalize ofBigEndian (input.take 4) = code at hlt hinput
      by_cases hclosed : code = 17
      · refine ⟨[], .sessionClosed (input.drop 4), ?_⟩
        rw [hclosed] at hinput
        exact hinput
      · by_cases hknown : code ∈ messageCodes
        · rcases exhaustive_bodies hknown (input.drop 4) with ⟨-, ⟨message, rfl, rfl⟩, rest, hrest⟩ | ⟨-, ⟨message, rfl, rfl⟩, hends⟩
          · have hfirst : input = message.encode ++ rest := by
              rw [ServerMessage.encode, List.append_assoc, hrest]
              exact hinput
            have hless : rest.length < n := by
              have hdrop := congrArg List.length hrest
              rw [List.length_append, List.length_drop] at hdrop
              omega
            obtain ⟨messages, ending, hmessages⟩ := ih rest.length hless rest rfl
            refine ⟨message :: messages, ending, ?_⟩
            rw [List.flatMap_cons, List.append_assoc, ← hmessages]
            exact hfirst
          · exact ⟨[], .cut message (input.drop 4) hends, hinput⟩
        · exact ⟨[], .unexpectedToken code hlt ⟨hclosed, hknown⟩ (input.drop 4), hinput⟩

end DxApi.Session.HandlerThread
