import FieldLink.Authenticator
import FieldLink.Base32
import FieldLink.Clock
import FieldLink.Command
import FieldLink.Handshake
import FieldLink.IndentedJson
import FieldLink.ToolRequest
import FieldLink.Whitespace

/-!
# The diagnostic tool

Keys, one-time codes, handshakes, commands and envelopes, without a connection.
-/

namespace FieldLink

inductive ToolError where
  | secretNotHexadecimal
  | secretEmpty
  | nonceNotHexadecimal
  | nonceLength (length : Nat)
  | inputNotHexadecimal
  | security (e : SecurityError)
  | protocol (e : ProtocolError)
deriving DecidableEq

/-- The wording of an error; `detail` stands for what the reader of a text has to say. -/
def ToolError.message (detail : String) : ToolError → String
  | .secretNotHexadecimal => "secret is not hex"
  | .secretEmpty => "secret is empty"
  | .nonceNotHexadecimal => "nonce is not hex"
  | .nonceLength n =>
    let wanted := Handshake.nonceLength
    s!"nonce must be {wanted} bytes, got {n}"
  | .inputNotHexadecimal => "input is not hex"
  | .security e => e.message
  | .protocol e => e.message detail

namespace Tool

/-- Octets in hexadecimal, with spaces around them or without. -/
def octets? (text : String) : Option Octets := Hexadecimal.decode? (.ofList (trim text.toList))

def secret (text : String) : Except ToolError Octets :=
  match octets? text with
  | none => .error .secretNotHexadecimal
  | some [] => .error .secretEmpty
  | some octets => .ok octets

def argued {α : Type} (result : Except ArgumentFault α) : Except ToolError α :=
  result.mapError fun fault => .security (.invalidArgument fault)

def deriveKeys (text : String) : Except ToolError String := do
  let secret ← secret text
  let handshakeKey ← argued (Key.derive secret Key.handshakeLabel)
  let frameKey ← argued (Key.derive secret Key.frameLabel)
  return "handshake_key: " ++ Hexadecimal.encode handshakeKey.octets ++ "\nframe_key: " ++
    Hexadecimal.encode frameKey.octets

def oneTimeCode (seed : String) (time : UInt64) (digits : UInt32) (period : UInt64) :
    Except ToolError String := do
  let seed ← argued (Base32.decode seed)
  let code ← argued (CodeSettings.compute ⟨seed, period, digits, 0⟩ time)
  return CodeSettings.format code digits

/-- The nonce that is given, which must have the right length, or a random one. -/
def nonce (text : Option String) (source : RandomSource) : Except ToolError Octets :=
  match text with
  | none => .ok (source.draw Handshake.nonceLength).1
  | some text =>
    match octets? text with
    | none => .error .nonceNotHexadecimal
    | some octets =>
      if octets.length = Handshake.nonceLength then .ok octets else .error (.nonceLength octets.length)

def signHandshake (text token : String) (nonceText : Option String) (source : RandomSource) :
    Except ToolError String := do
  let secret ← secret text
  let context ← (SecurityContext.ofSettings {
    encryption := false, handshake := true, oneTimeCode := false, secret, codes := none }).mapError
      .security
  let nonce ← nonce nonceText source
  let authorization := Handshake.bearer token
  let signature ←
    (Handshake.sign context nonce (Handshake.valueOctets authorization)).mapError .security
  let headers : Handshake.Headers := {
    authorization
    nonce := some (Hexadecimal.encode nonce)
    signature := some (Hexadecimal.encode signature)
    code := none }
  return "\n".intercalate (headers.toPairs.map fun (name, value) => name ++ ": " ++ value)

def buildCommand (r : CommandRequest) (now : UInt64) (source : RandomSource) :
    Except ToolError Octets := do
  let key ← secret r.key
  let signer ← (Authenticator.withKey key).mapError .security
  let payload ← (Payload.toDocument r.toCommand).mapError .protocol
  let timestamp := r.timestamp.getD now
  let signature ←
    (signer.signFresh payload Envelope.currentVersion timestamp source).mapError .security
  return (Envelope.encode r.preferCbor .command timestamp r.sequence payload (some signature)).octets

def formatName : WireFormat → String
  | .json => "json"
  | .cbor => "cbor"

def report (e : Envelope) : Document :=
  .object [("format", .text (formatName e.format)), ("v", .ofUInt32 e.version),
    ("type", .text e.kind.name), ("ts", .ofUInt64 e.timestamp), ("seq", .ofUInt32 e.sequence),
    ("crc", .ofUInt32 e.crc), ("crc_valid", .bool e.crcValid),
    ("auth", (e.signature.map Signature.toDocument).getD .null), ("payload", e.payload)]

def decode (text : String) : Except ToolError String :=
  match octets? text with
  | none => .error .inputNotHexadecimal
  | some octets => do
    let envelope ← (Envelope.decode octets).mapError .protocol
    return .ofList ((report envelope).indentedText 0)

/-- Answers a request. The clock gives the present and the source whatever is random. -/
def run (clock : Clock) (source : RandomSource) : ToolRequest → Except ToolError String
  | .deriveKeys secret => deriveKeys secret
  | .oneTimeCode seed time digits period =>
    oneTimeCode seed (time.getD clock.seconds) digits period
  | .signHandshake secret token nonce => signHandshake secret token nonce source
  | .command r => (buildCommand r clock.milliseconds source).map Hexadecimal.encode
  | .decode text => decode text

end Tool
end FieldLink
