import DxApi.Net.ErrorPages
import DxApi.Net.ResponseBody
import DxApi.Net.ResponseHeader
import DxApi.Net.TransferForm
import DxApi.Reader.Dechunk

/-!
# Executing a request

`executeRequest` sends a request over a new connection and reads the response from it, byte after byte: the
header, the code in its first line and then the body. What it gives its caller is a code and a text, the
body of the response or, where a request failed, what the server says about it.
-/

namespace DxApi.Net

open Exec Reader Request CString

/-! ## The header of a response -/

/-- `ResponseHeader`, the string and its members. -/
structure ResponseHeader where
  header : List UInt8
  code : ℕ
  responseStringEndOffset : ℕ

/-- Why `executeRequest` does not return. -/
inductive ExecuteError
  | request (error : RequestError)
  | reader (error : ReadError)
  | unexpectedHeader (header : List UInt8)
  | unknownCode (responseText : List UInt8)
  | codeNotFound (responseText : List UInt8)
  /-- The header ends before the place that is searched for the end of its first line. -/
  | headerTooShort
  /-- The string of the body throws. -/
  | bodyTooLong
  deriving DecidableEq, Repr

def responseStartOffset : ℕ := 9

def responseStringStartOffset : ℕ := 13

namespace ResponseHeader

def responseText (h : ResponseHeader) : List UInt8 :=
  (h.header.take (max h.responseStringEndOffset responseStartOffset)).drop responseStartOffset

def limitLengthTo (h : ResponseHeader) (limit : ℕ) : ResponseHeader :=
  { h with responseStringEndOffset := min h.responseStringEndOffset limit }

/-- `parseException`, which throws for a long header only. -/
def parseException (h : ResponseHeader) : Except ExecuteError (ℕ × ResponseHeader) :=
  if 0x380 < h.header.length then .error (.unexpectedHeader (h.header.take 0x380)) else .ok (0, h)

/-- `parse`, once the end of the first line is known. -/
def parseCode (h : ResponseHeader) : Except ExecuteError (ℕ × ResponseHeader) :=
  if ¬text "HTTP/1.1 " <+: h.header ∨ h.header.length < responseStringStartOffset then h.parseException
  else
    let h := { h with code := strtoull (h.header.drop 9) % 2 ^ 32 }
    if h.code < 100 ∨ 600 ≤ h.code then
      let responseText := (h.limitLengthTo 0x400).responseText
      .error (if h.code ≠ 0 then .unknownCode responseText else .codeNotFound responseText)
    else .ok (h.code, h)

/-- `parse`: the code, and the header with its members. -/
def parse (h : ResponseHeader) : Except ExecuteError (ℕ × ResponseHeader) :=
  if h.header.length < responseStringStartOffset then .error .headerTooShort
  else
    (strstr (h.header.drop responseStringStartOffset) crlf).elim h.parseException fun eol ↦
      { h with responseStringEndOffset := responseStringStartOffset + eol }.parseCode

end ResponseHeader

/-! ## The exchange -/

/-- `HttpSuccess`. -/
def HttpSuccess (x : ℕ) : Prop := x / 100 = 2

instance (x : ℕ) : Decidable (HttpSuccess x) := inferInstanceAs (Decidable (x / 100 = 2))

/-- A connection: the stream that is written to, and the reader that has the stream that is read from. -/
structure Connection where
  output : IOStreamTCP
  reader : DataReader

/-- What `executeRequest` reads of the database: whether it is open, and what goes into a header. -/
structure Database where
  isOpen : Bool
  host : List UInt8
  basicAuth : List UInt8

/-- The request of `executeRequest`. -/
def Database.request (db : Database) (request path : List UInt8) (requestBody : Option (List UInt8)) : Request :=
  ⟨request, path, requestBody, .xml, .fixed, db.host, db.basicAuth⟩

abbrev ExecuteM (α : Type) := EStateM ExecuteError Connection α

def onOutput {α : Type} (program : EStateM RequestError IOStreamTCP α) : ExecuteM α :=
  zoom Connection.output (fun output c ↦ { c with output := output }) .request program

def onReader {α : Type} (program : ReaderM α) : ExecuteM α :=
  zoom Connection.reader (fun reader c ↦ { c with reader := reader }) .reader program

/-- What is returned for a response with this header and body. -/
def resultOf (httpResponseCode : ℕ) (responseHeader : ResponseHeader) (result : Bool) (responseBody : List UInt8) :
    ℕ × List UInt8 :=
  if HttpSuccess httpResponseCode then
    (if result then httpResponseCode else 0, responseBody)
  else if result ∧ responseBody ≠ [] then
    (httpResponseCode, (tryExtractTomcatResponseMessage responseBody).getD responseBody)
  else (httpResponseCode, responseHeader.responseText)

/-- The response is read by a reader whose buffer is at this address. -/
def readResponse (buffer : ℤ) : ExecuteM (ℕ × List UInt8) := do
  modify fun c ↦ { c with reader := constructBase c.reader (buffer + 0x100) 0x2000 0 c.reader.s }
  let header ← onReader (readResponseHeader .msg)
  match ResponseHeader.parse ⟨header, 0, 0⟩ with
  | .error error => throw error
  | .ok (httpResponseCode, responseHeader) =>
    match ← onReader (readResponseBody .msg (parseContentLength responseHeader.header)) with
    | none => throw .bodyTooLong
    | some (result, responseBody) => return resultOf httpResponseCode responseHeader result responseBody

/-- `executeRequest`, with the buffer at this address: the code, and the text that is left in `responseBody`. -/
def executeRequest (db : Database) (buffer : ℤ) (responseBody request path : List UInt8)
    (requestBody : Option (List UInt8)) (allowUnopenedDb : Bool) : ExecuteM (ℕ × List UInt8) :=
  if ¬allowUnopenedDb ∧ ¬db.isOpen then return (0, responseBody)
  else do
    onOutput (sendRequest (db.request request path requestBody))
    readResponse buffer

/-- `executeTbPostRequest`. -/
def executeTbPostRequest (db : Database) (buffer : ℤ) (responseBody requestBody : List UInt8) (allowUnopenedDb : Bool) :
    ExecuteM (ℕ × List UInt8) :=
  executeRequest db buffer responseBody (text "POST") (text "/tb/xml") (some requestBody) allowUnopenedDb

end DxApi.Net
