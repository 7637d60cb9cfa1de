import FieldLink.CborDocument
import FieldLink.MessageKind

/-!
# What can be wrong with a message

The wording takes `detail`, which stands for what the reader of a text or of a shape has to say beyond the
cause.
-/

namespace FieldLink

/-- A mandatory field of an envelope. -/
inductive EnvelopeField where
  | version
  | kind
  | timestamp
  | sequence
  | payload
deriving DecidableEq

def EnvelopeField.name : EnvelopeField → String
  | .version => "v"
  | .kind => "type"
  | .timestamp => "ts"
  | .sequence => "seq"
  | .payload => "payload"

/-- Why an octet string is no CBOR map. -/
inductive CborRefusal where
  | unreadable
  | trailing (count : Nat)
  | notMap
deriving DecidableEq

/-- What is wrong with the payload of a kind of message. -/
inductive PayloadFault where
  | shape
  | carries (kind : MessageKind)
  | humidityReadings (count : Nat)
  | temperatureReadings (count : Nat)
  | noAction
  | channel (number : UInt8)
deriving DecidableEq

inductive ProtocolError where
  | empty
  | neither (cbor : CborRefusal)
  | notMap
  | missingField (field : EnvelopeField)
  | unknownKind (name : String)
  | unsupported (reason : Unsupported)
  | invalidPayload (kind : MessageKind) (fault : PayloadFault)
  | json
deriving DecidableEq

def CborRefusal.message (detail : String) : CborRefusal → String
  | .unreadable => detail
  | .trailing count => s!"{count} trailing bytes"
  | .notMap => "top-level item is not a map"

def Unsupported.message (detail : String) : Unsupported → String
  | .narrowing x =>
    let number := String.ofList x.plainText
    s!"float {number} does not survive CBOR narrowing"
  | .integerRange n => s!"integer {n} out of range"
  | .notFinite => "non-finite float"
  | .keyNotText => s!"non-text map key {detail}"
  | .byteString => "byte strings are not part of the document model"

def PayloadFault.message (detail : String) : PayloadFault → String
  | .shape => detail
  | .carries kind =>
    let name := kind.name
    s!"envelope carries {name}"
  | .humidityReadings count => s!"{count} SHT20 readings"
  | .temperatureReadings count => s!"{count} DS18B20 readings"
  | .noAction => "no action"
  | .channel n => s!"PWM channel {n} out of range"

def ProtocolError.message (detail : String) : ProtocolError → String
  | .empty => "malformed envelope: empty buffer"
  | .neither cbor =>
    let refusal := cbor.message detail
    s!"malformed envelope: not CBOR ({refusal}) and not JSON ({detail})"
  | .notMap => "malformed envelope: envelope is not a map"
  | .missingField field =>
    let name := field.name
    s!"missing or invalid envelope field '{name}'"
  | .unknownKind name => s!"unknown message type: {name}"
  | .unsupported reason =>
    let reason := reason.message detail
    s!"unsupported value: {reason}"
  | .invalidPayload kind fault =>
    let name := kind.name
    let reason := fault.message detail
    s!"invalid {name} payload: {reason}"
  | .json => s!"json error: {detail}"

end FieldLink
