import FieldLink.Checksum
import FieldLink.Shape
import FieldLink.WireDocument

/-!
# Envelopes

Every message travels with version, kind, time stamp, sequence number, payload, the CRC-32 of the payload alone
and, for commands, a signature. A wrong CRC is reported and not refused.
-/

namespace FieldLink

/-- A command's signature: nonce and tag in hexadecimal, and the name of the algorithm. -/
structure Signature where
  nonce : String
  mac : String
  algorithm : Option String
deriving DecidableEq

namespace Signature

def members (s : Signature) : List (String × Document) :=
  [("nonce", .text s.nonce), ("mac", .text s.mac)] ++
    match s.algorithm with
    | some algorithm => [("alg", .text algorithm)]
    | none => []

def toDocument (s : Signature) : Document := .object s.members

def ofDocument? (d : Document) : Option Signature := do
  match ← Shape.fields? ["nonce", "mac", "alg"] d with
  | [nonce, mac, algorithm] =>
    return {
      nonce := ← Shape.required Document.text? nonce
      mac := ← Shape.required Document.text? mac
      algorithm := ← Shape.optional Document.text? algorithm }
  | _ => none

end Signature

structure Envelope where
  version : UInt32
  kind : MessageKind
  timestamp : UInt64
  sequence : UInt32
  payload : Document
  /-- The CRC-32 that came with it, zero where none did. -/
  crc : UInt32
  crcValid : Bool
  format : WireFormat
  signature : Option Signature

structure EncodedEnvelope where
  octets : Octets
  crc : UInt32
  format : WireFormat
deriving DecidableEq

namespace Envelope

def currentVersion : UInt32 := 1

def wrap (kind : MessageKind) (timestamp : UInt64) (sequence : UInt32) (payload : Document)
    (crc : UInt32) (signature : Option Signature) : Document :=
  .object ([("v", .ofUInt32 currentVersion), ("type", .text kind.name), ("ts", .ofUInt64 timestamp),
    ("seq", .ofUInt32 sequence), ("payload", payload), ("crc", .ofUInt32 crc)] ++
      match signature with
      | some s => [("auth", s.toDocument)]
      | none => [])

def encodeJson (kind : MessageKind) (timestamp : UInt64) (sequence : UInt32) (payload : Document)
    (signature : Option Signature) : EncodedEnvelope :=
  let crc := Checksum.crc32 payload.writeJson
  ⟨(wrap kind timestamp sequence payload crc signature).writeJson, crc, .json⟩

/-- Encodes as CBOR, which may refuse the payload. -/
def encodeCbor (kind : MessageKind) (timestamp : UInt64) (sequence : UInt32) (payload : Document)
    (signature : Option Signature) : Except Unsupported EncodedEnvelope := do
  let crc := Checksum.crc32 (← payload.writeCbor)
  let octets ← (wrap kind timestamp sequence payload crc signature).writeCbor
  return ⟨octets, crc, .cbor⟩

/-- Encodes in the preferred format; what CBOR refuses goes out as JSON. -/
def encode (preferCbor : Bool) (kind : MessageKind) (timestamp : UInt64) (sequence : UInt32)
    (payload : Document) (signature : Option Signature) : EncodedEnvelope :=
  let json := encodeJson kind timestamp sequence payload signature
  if preferCbor then
    match encodeCbor kind timestamp sequence payload signature with
    | .ok encoded => encoded
    | .error _ => json
  else json

def field {α : Type} (members : List (String × Document)) (name : EnvelopeField)
    (read : Document → Option α) : Except ProtocolError α :=
  match (members.lookup name.name).bind read with
  | some value => .ok value
  | none => .error (.missingField name)

/-- The sequence number, zero where there is none. -/
def sequenceField (members : List (String × Document)) : Except ProtocolError UInt32 :=
  match members.lookup EnvelopeField.sequence.name with
  | none => .ok 0
  | some _ => field members .sequence Document.uint32?

def kindField (members : List (String × Document)) : Except ProtocolError MessageKind := do
  let name ← field members .kind Document.text?
  match MessageKind.ofName? name with
  | some kind => .ok kind
  | none => .error (.unknownKind name)

/-- Whether a payload, written again in the format it came in, has the CRC that came with it. -/
def checkCrc (format : WireFormat) (payload : Document) : Option UInt32 → Except ProtocolError Bool
  | none => .ok false
  | some crc => do
    let octets ← payload.write format
    return Checksum.verify crc octets

def ofMembers (format : WireFormat) (members : List (String × Document)) :
    Except ProtocolError Envelope := do
  let version ← field members .version Document.uint32?
  let kind ← kindField members
  let timestamp ← field members .timestamp Document.uint64?
  let sequence ← sequenceField members
  let payload ← field members .payload some
  let crc := (members.lookup "crc").bind Document.uint32?
  let crcValid ← checkCrc format payload crc
  return {
    version, kind, timestamp, sequence, payload, crcValid, format
    crc := crc.getD 0
    signature := (members.lookup "auth").bind Signature.ofDocument? }

def decode (octets : Octets) : Except ProtocolError Envelope := do
  let wire ← WireDocument.read octets
  let document ← wire.toDocument
  match document with
  | .object members => ofMembers wire.format members
  | _ => .error .notMap

end Envelope
end FieldLink
