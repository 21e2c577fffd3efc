import DxApi.Net.TCP

/-!
# Sending an HTTP request

`sendRequest` composes the header in one string and hands it to a new connection, and then the body.
The part of the header up to the content type is printed into a buffer of a fixed size, which may cut
it off.
-/

namespace DxApi.Net

open Exec

/-- `HTTP::ContentType`. -/
inductive ContentType
  | none
  | xml
  | binary
  deriving DecidableEq, Repr

/-- `HTTP::ContentLength`. -/
inductive ContentLength
  | none
  | fixed
  | chunked
  deriving DecidableEq, Repr

/-- The arguments of `sendRequest`, and what it reads of the database: the host and the credentials,
in base 64. -/
structure Request where
  request : List UInt8
  path : List UInt8
  requestBody : Option (List UInt8)
  contentType : ContentType
  contentLengthEncoding : ContentLength
  host : List UInt8
  basicAuth : List UInt8

/-- Why `sendRequest` does not return. -/
inductive RequestError
  | hostTooLong (length : ℕ)
  | stream (error : IOStreamException)
  deriving DecidableEq, Repr

namespace Request

/-- The bytes of a literal. -/
def text (s : String) : List UInt8 := s.toList.map fun c ↦ UInt8.ofNat c.toNat

/-- `CRLF`. -/
def crlf : List UInt8 := [13, 10]

/-- The size of the buffer that the header is printed into. -/
def bufferSize : ℕ := 0x3000

/-- What `%s` prints of a string. -/
def printed (s : List UInt8) : List UInt8 := s.takeWhile (· ≠ 0)

/-- What `snprintf` leaves in the buffer. -/
def truncated (s : List UInt8) : List UInt8 := s.take (bufferSize - 1)

/-- The content type of the request, filled in if there is a body. -/
def effectiveType (r : Request) : ContentType :=
  match r.requestBody with
  | Option.none => .none
  | some _ =>
    if r.contentType = .none then
      if r.contentLengthEncoding ≠ .chunked then .xml else .binary
    else r.contentType

/-- How the length of the body is given, filled in if there is a body. -/
def effectiveEncoding (r : Request) : ContentLength :=
  match r.requestBody with
  | Option.none => .none
  | some _ =>
    if r.contentLengthEncoding = .none then
      if r.effectiveType = .binary then .chunked else .fixed
    else r.contentLengthEncoding

/-- The header line of the content type. -/
def contentTypeLine : ContentType → List UInt8
  | .none => []
  | .xml => crlf ++ text "Content-Type: " ++ text "text/xml"
  | .binary => crlf ++ text "Content-Type: " ++ text "application/x-www-form-urlencoded"

/-- The header line of the length. -/
def lengthLine (r : Request) : List UInt8 :=
  match r.effectiveEncoding with
  | .fixed => crlf ++ text "Content-Length: " ++ text (toString (r.requestBody.getD []).length)
  | .chunked => crlf ++ crlf ++ text "Transfer-Encoding: chunked"
  | .none => crlf

/-- The header line of the credentials. -/
def authorizationLine (r : Request) : List UInt8 :=
  if r.basicAuth = [] then []
  else text "Authorization: Basic " ++ r.basicAuth ++ crlf

def header (r : Request) : List UInt8 :=
  truncated (printed r.request ++ text " " ++ printed r.path ++ text " HTTP/1.1" ++
    crlf ++ text "Host: " ++ printed r.host ++
    crlf ++ text "Connection: close" ++ contentTypeLine r.effectiveType) ++
  truncated r.lengthLine ++ crlf ++ r.authorizationLine ++ crlf

end Request

/-- A call on the connection. -/
def onConnection {α : Type} (program : EStateM IOStreamException IOStreamTCP α) :
    EStateM RequestError IOStreamTCP α :=
  zoom id (fun s _ ↦ s) RequestError.stream program

/-- `sendRequest`, over the connection that it has made. -/
def sendRequest (r : Request) : EStateM RequestError IOStreamTCP Unit := do
  if Request.bufferSize - 0x200 < r.host.length then
    throw (.hostTooLong r.host.length)
  else
    let _ ← onConnection (IOStreamTCP.write r.header)
    match r.requestBody with
    | Option.none => return ()
    | some requestBody =>
      let _ ← onConnection (IOStreamTCP.write requestBody)

/-- The connection is reached by `write` only. -/
theorem sendRequest_kept {kept : IOStreamTCP → Prop}
    (hwrite : ∀ data, Preserves kept (IOStreamTCP.write data)) (r : Request) :
    Preserves kept (sendRequest r) := by
  have hconnection : ∀ data, Preserves kept (onConnection (IOStreamTCP.write data)) :=
    fun data ↦ (hwrite data).zoom (fun _ hkept ↦ hkept) fun _ _ _ hkept ↦ hkept
  unfold sendRequest
  apply (preserves_throw _).ite
  apply (hconnection _).bind
  intro _
  cases r.requestBody with
  | none => exact preserves_pure _
  | some requestBody => exact (hconnection _).bind fun _ ↦ preserves_pure _

end DxApi.Net
