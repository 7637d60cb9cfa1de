import FieldLink.Telemetry

/-!
# Commands to a sensor node, and what comes back

A command has up to three actions and at least one.
-/

namespace FieldLink

inductive Expander where
  | first
  | second
deriving DecidableEq

inductive Port where
  | a
  | b
deriving DecidableEq

namespace Expander

def name : Expander → String
  | .first => "mcp0"
  | .second => "mcp1"

def ofName? (name : String) : Option Expander :=
  if name = "mcp0" then some .first else if name = "mcp1" then some .second else none

def ofDocument? (d : Document) : Option Expander := Shape.name? d >>= ofName?

end Expander

namespace Port

def name : Port → String
  | .a => "A"
  | .b => "B"

def ofName? (name : String) : Option Port :=
  if name = "A" then some .a else if name = "B" then some .b else none

def ofDocument? (d : Document) : Option Port := Shape.name? d >>= ofName?

end Port

structure DutyAction where
  channel : UInt8
  duty : UInt16
deriving DecidableEq

structure FrequencyAction where
  frequency : UInt16
deriving DecidableEq

structure PortAction where
  expander : Expander
  port : Port
  mask : UInt16
  value : UInt16
deriving DecidableEq

namespace DutyAction

def toDocument (a : DutyAction) : Document :=
  .object [("ch", .ofUInt8 a.channel), ("duty", .ofUInt16 a.duty)]

def ofDocument? (d : Document) : Option DutyAction := do
  match ← Shape.fields? ["ch", "duty"] d with
  | [channel, duty] =>
    return ⟨← Shape.required Document.uint8? channel, ← Shape.required Document.uint16? duty⟩
  | _ => none

end DutyAction

namespace FrequencyAction

def toDocument (a : FrequencyAction) : Document := .object [("freq", .ofUInt16 a.frequency)]

def ofDocument? (d : Document) : Option FrequencyAction := do
  match ← Shape.fields? ["freq"] d with
  | [frequency] => return ⟨← Shape.required Document.uint16? frequency⟩
  | _ => none

end FrequencyAction

namespace PortAction

def toDocument (a : PortAction) : Document :=
  .object [("dev", .text a.expander.name), ("port", .text a.port.name), ("mask", .ofUInt16 a.mask),
    ("value", .ofUInt16 a.value)]

def ofDocument? (d : Document) : Option PortAction := do
  match ← Shape.fields? ["dev", "port", "mask", "value"] d with
  | [expander, port, mask, value] =>
    return {
      expander := ← Shape.required Expander.ofDocument? expander
      port := ← Shape.required Port.ofDocument? port
      mask := ← Shape.required Document.uint16? mask
      value := ← Shape.required Document.uint16? value }
  | _ => none

end PortAction

/-- The actions of a command, in no order of their own. -/
structure Command where
  duty : Option DutyAction
  frequency : Option FrequencyAction
  port : Option PortAction
deriving DecidableEq

namespace Command

def fault? (c : Command) : Option PayloadFault :=
  if c.duty.isNone ∧ c.frequency.isNone ∧ c.port.isNone then some .noAction
  else
    match c.duty with
    | some action =>
      if channelCount ≤ action.channel.toNat then some (.channel action.channel) else none
    | none => none

def toDocument (c : Command) : Document :=
  .object ((c.duty.map fun a => ("set_pwm", a.toDocument)).toList ++
    (c.frequency.map fun a => ("pwm_freq", a.toDocument)).toList ++
    (c.port.map fun a => ("write_gpio", a.toDocument)).toList)

def ofDocument? (d : Document) : Option Command := do
  match ← Shape.fields? ["set_pwm", "pwm_freq", "write_gpio"] d with
  | [duty, frequency, port] =>
    return {
      duty := ← Shape.optional DutyAction.ofDocument? duty
      frequency := ← Shape.optional FrequencyAction.ofDocument? frequency
      port := ← Shape.optional PortAction.ofDocument? port }
  | _ => none

instance : Payload Command where
  kind := .command
  fault? := fault?
  render := toDocument
  shape? := ofDocument?

end Command

/-- What became of the command with a sequence number. -/
structure Acknowledgement where
  sequence : UInt32
  ok : Bool
  reason : Option String
deriving DecidableEq

namespace Acknowledgement

def success (sequence : UInt32) : Acknowledgement := ⟨sequence, true, none⟩

def failure (sequence : UInt32) (reason : String) : Acknowledgement := ⟨sequence, false, some reason⟩

def toDocument (a : Acknowledgement) : Document :=
  .object ([("ref_seq", .ofUInt32 a.sequence), ("ok", .bool a.ok)] ++
    (a.reason.map fun reason => ("reason", .text reason)).toList)

def ofDocument? (d : Document) : Option Acknowledgement := do
  match ← Shape.fields? ["ref_seq", "ok", "reason"] d with
  | [sequence, ok, reason] =>
    return {
      sequence := ← Shape.required Document.uint32? sequence
      ok := ← Shape.required Document.bool? ok
      reason := ← Shape.optional Document.text? reason }
  | _ => none

instance : Payload Acknowledgement where
  kind := .acknowledgement
  fault? _ := none
  render := toDocument
  shape? := ofDocument?

end Acknowledgement

/-- A sign of life, with the time since start in milliseconds. -/
structure Heartbeat where
  uptime : UInt64
deriving DecidableEq

namespace Heartbeat

def toDocument (h : Heartbeat) : Document := .object [("uptime_ms", .ofUInt64 h.uptime)]

def ofDocument? (d : Document) : Option Heartbeat := do
  match ← Shape.fields? ["uptime_ms"] d with
  | [uptime] => return ⟨← Shape.required Document.uint64? uptime⟩
  | _ => none

instance : Payload Heartbeat where
  kind := .heartbeat
  fault? _ := none
  render := toDocument
  shape? := ofDocument?

end Heartbeat
end FieldLink
