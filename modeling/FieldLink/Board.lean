import FieldLink.Command

/-!
# The board that commands drive

Sixteen outputs with one frequency, and two expanders with two ports each. A command either does all it asks for
or is answered by a failure.
-/

namespace FieldLink

structure Latches where
  a : UInt16
  b : UInt16
deriving DecidableEq

namespace Latches

def get (l : Latches) : Port → UInt16
  | .a => l.a
  | .b => l.b

def set (l : Latches) (p : Port) (value : UInt16) : Latches :=
  match p with
  | .a => { l with a := value }
  | .b => { l with b := value }

end Latches

structure Board where
  frequency : UInt16
  duty : Vector UInt16 channelCount
  first : Latches
  second : Latches
deriving DecidableEq

inductive BoardFault where
  | noChannel (number : UInt8)
  | zeroFrequency
deriving DecidableEq

def BoardFault.message : BoardFault → String
  | .noChannel n => s!"no PWM channel {n}"
  | .zeroFrequency => "PWM frequency must be nonzero"

inductive Action where
  | frequency (action : FrequencyAction)
  | duty (action : DutyAction)
  | port (action : PortAction)
deriving DecidableEq

/-- The steps of a command in the order in which they are taken. -/
def Command.steps (c : Command) : List Action :=
  (c.frequency.map .frequency).toList ++ (c.duty.map .duty).toList ++ (c.port.map .port).toList

namespace Board

def blank : Board := ⟨0, Vector.replicate channelCount 0, ⟨0, 0⟩, ⟨0, 0⟩⟩

def latches (b : Board) : Expander → Latches
  | .first => b.first
  | .second => b.second

def setLatches (b : Board) (e : Expander) (l : Latches) : Board :=
  match e with
  | .first => { b with first := l }
  | .second => { b with second := l }

def setFrequency (b : Board) (frequency : UInt16) : Except BoardFault Board :=
  if frequency = 0 then .error .zeroFrequency else .ok { b with frequency }

def setDuty (b : Board) (channel : UInt8) (duty : UInt16) : Except BoardFault Board :=
  if h : channel.toNat < channelCount then .ok { b with duty := b.duty.set channel.toNat duty h }
  else .error (.noChannel channel)

def masked (old mask value : UInt16) : UInt16 := (old &&& ~~~mask) ||| (value &&& mask)

def writePort (b : Board) (e : Expander) (p : Port) (mask value : UInt16) : Board :=
  let l := b.latches e
  b.setLatches e (l.set p (masked (l.get p) mask value))

def act (b : Board) : Action → Except BoardFault Board
  | .frequency action => b.setFrequency action.frequency
  | .duty action => b.setDuty action.channel action.duty
  | .port action => .ok (b.writePort action.expander action.port action.mask action.value)

/-- Takes steps up to the first that fails. What was done before it stays done. -/
def perform (b : Board) : List Action → Except BoardFault Unit × Board
  | [] => (.ok (), b)
  | action :: rest =>
    match b.act action with
    | .ok b => b.perform rest
    | .error fault => (.error fault, b)

/-- Carries out the command in an envelope and acknowledges it. -/
def execute (b : Board) (e : Envelope) : Acknowledgement × Board :=
  let fail (reason : String) (b : Board) : Acknowledgement × Board := (.failure e.sequence reason, b)
  if e.kind ≠ .command then fail "not a command" b
  else if !e.crcValid then fail "crc mismatch" b
  else
    match Payload.ofEnvelope Command e with
    | .error _ => fail "invalid command" b
    | .ok command =>
      match b.perform command.steps with
      | (.ok (), b) => (.success e.sequence, b)
      | (.error fault, b) => fail fault.message b

end Board
end FieldLink
