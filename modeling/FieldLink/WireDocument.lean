import FieldLink.JsonDocument
import FieldLink.ProtocolError

/-!
# Telling the two wire formats apart by their octets

An opening brace or bracket is JSON; anything else is a single CBOR map or, failing that, JSON again.
-/

namespace FieldLink

inductive WireFormat where
  | json
  | cbor
deriving DecidableEq

/-- A received document in the format that was found. -/
inductive WireDocument where
  | json (document : Document)
  | cbor (item : Cbor)

/-- A CBOR map that takes up the whole octet string. -/
def Cbor.readMap (octets : Octets) : Except CborRefusal Cbor :=
  match CborReader.read? octets with
  | none => .error .unreadable
  | some (item, []) => if item.isMap then .ok item else .error .notMap
  | some (_, rest) => .error (.trailing rest.length)

namespace WireDocument

def read (octets : Octets) : Except ProtocolError WireDocument :=
  match octets with
  | [] => .error .empty
  | first :: _ =>
    if first = 0x7B ∨ first = 0x5B then
      match Document.readJson? octets with
      | some document => .ok (.json document)
      | none => .error .json
    else
      match Cbor.readMap octets with
      | .ok item => .ok (.cbor item)
      | .error refusal =>
        match Document.readJson? octets with
        | some document => .ok (.json document)
        | none => .error (.neither refusal)

def format : WireDocument → WireFormat
  | .json _ => .json
  | .cbor _ => .cbor

def toDocument : WireDocument → Except ProtocolError Document
  | .json document => .ok document
  | .cbor item => item.toDocument.mapError .unsupported

end WireDocument

/-- The octets of a document in a format. Only CBOR can refuse. -/
def Document.write (format : WireFormat) (d : Document) : Except ProtocolError Octets :=
  match format with
  | .json => .ok d.writeJson
  | .cbor => d.writeCbor.mapError .unsupported

end FieldLink
