import DxApi.Writer.Fields

/-!
# The beginning of a connection

Loaders and the session handler open their connections alike: the version of the protocol, the answer
of the server, the name and the password of the user, and again an answer.
-/

namespace DxApi.Net

open Exec Writer

/-- `PROTOCOL_INIT`. -/
def protocolInit : ℤ := 0x18

/-- `PROTOCOL_VERSION`. -/
def protocolVersion : ℤ := 32

/-- `MIN_SERVER_VERSION`. -/
def minServerVersion : ℤ := 31

/-- `SERVER_ENTITYID32_SUPPORT_VERSION`. -/
def serverEntityId32SupportVersion : ℤ := 31

/-- `RESP_ERROR`. -/
def respError : ℤ := -1

/-- Who connects. -/
structure Credentials where
  username : List UInt8
  encodedPass : List UInt8

/-- What the server answers during the handshake. -/
structure ServerAnswers where
  version : ℤ
  handshake : ℤ

/-- The client says which version it speaks. -/
def writeVersion : WriterM Unit := do
  writeByte protocolInit
  writeInt16 protocolVersion

/-- The client says who it is. -/
def writeCredentials (credentials : Credentials) : WriterM Unit := do
  if credentials.username = [] then
    writeByte 0
  else
    writeByte 1
    writeUTF8 credentials.username
    writeUTF8 credentials.encodedPass

end DxApi.Net
