/-! # The kinds of message, and the names under which they travel -/

namespace FieldLink

inductive MessageKind where
  | telemetry
  | command
  | heartbeat
  | acknowledgement
deriving DecidableEq

namespace MessageKind

def name : MessageKind → String
  | .telemetry => "sensor_update"
  | .command => "cmd"
  | .heartbeat => "heartbeat"
  | .acknowledgement => "cmd_ack"

def ofName? (name : String) : Option MessageKind :=
  if name = "sensor_update" then some .telemetry
  else if name = "cmd" then some .command
  else if name = "heartbeat" then some .heartbeat
  else if name = "cmd_ack" then some .acknowledgement
  else none

@[simp] theorem ofName?_name (kind : MessageKind) : ofName? kind.name = some kind := by
  cases kind <;> decide

end MessageKind
end FieldLink
