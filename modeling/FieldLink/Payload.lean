import FieldLink.Envelope

/-!
# Payloads of a fixed kind

How they are written as documents, which shapes they are read from, and which of them are refused although their
shape is right.
-/

namespace FieldLink

class Payload (α : Type) where
  kind : MessageKind
  fault? : α → Option PayloadFault
  render : α → Document
  shape? : Document → Option α

namespace Payload

variable {α : Type} [Payload α]

def check (value : α) : Except ProtocolError α :=
  match fault? value with
  | none => .ok value
  | some fault => .error (.invalidPayload (kind α) fault)

def toDocument (value : α) : Except ProtocolError Document := do
  let value ← check value
  return render value

def readShape (α : Type) [Payload α] (d : Document) : Except ProtocolError α :=
  match shape? d with
  | some value => .ok value
  | none => .error (.invalidPayload (kind α) .shape)

def ofDocument (α : Type) [Payload α] (d : Document) : Except ProtocolError α := do
  check (← readShape α d)

def ofEnvelope (α : Type) [Payload α] (e : Envelope) : Except ProtocolError α :=
  if e.kind = kind α then ofDocument α e.payload
  else .error (.invalidPayload (kind α) (.carries e.kind))

def encode (preferCbor : Bool) (timestamp : UInt64) (sequence : UInt32) (value : α) :
    Except ProtocolError EncodedEnvelope := do
  let document ← toDocument value
  return Envelope.encode preferCbor (kind α) timestamp sequence document none

end Payload
end FieldLink
