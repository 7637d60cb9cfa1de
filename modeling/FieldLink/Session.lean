import FieldLink.Authenticator
import FieldLink.Command
import FieldLink.Frame
import FieldLink.SessionError

/-!
# Sessions

One end of a connection. A message that is sent is encoded, sealed and handed to the transport; one that is
received is opened, decoded and, if it is a command, checked. Only a message that the transport took uses up a
sequence number, while the counter of frames moves with each that is sealed.
-/

namespace FieldLink

/-- What takes frames away: each is taken, or refused with an error. -/
abbrev Transport := Octets → Except SessionError Unit

namespace Transport

def reliable : Transport := fun _ => .ok ()

/-- Takes no frame, since nobody receives. -/
def closed : Transport := fun _ => .error .channelClosed

end Transport

structure Inbound where
  envelope : Envelope
  authenticated : Bool

structure Sent where
  sequence : UInt32
  frame : Octets
deriving DecidableEq

structure Session where
  context : SecurityContext
  watermark : UInt64
  preferCbor : Bool
  nextSequence : UInt32
  authenticator : Option Authenticator

namespace Session

def start (context : SecurityContext) (preferCbor : Bool) (authenticator : Option Authenticator) :
    Session :=
  ⟨context, 0, preferCbor, 1, authenticator⟩

def transmit (s : Session) (octets : Octets) (vectors : RandomSource) (transport : Transport) :
    Except SessionError Octets × Session :=
  let (result, context, _) := Frame.sealText s.context octets vectors
  let s := { s with context }
  match result with
  | .error e => (.error (.security e), s)
  | .ok frame =>
    match transport frame with
    | .error e => (.error e, s)
    | .ok () => (.ok frame, s)

def post (s : Session) (kind : MessageKind) (timestamp : UInt64) (payload : Document)
    (signature : Option Signature) (vectors : RandomSource) (transport : Transport) :
    Except SessionError Sent × Session :=
  let sequence := s.nextSequence
  let encoded := Envelope.encode s.preferCbor kind timestamp sequence payload signature
  match s.transmit encoded.octets vectors transport with
  | (.error e, s) => (.error e, s)
  | (.ok frame, s) => (.ok ⟨sequence, frame⟩, { s with nextSequence := sequence + 1 })

def send (s : Session) (kind : MessageKind) (timestamp : UInt64) (payload : Document)
    (vectors : RandomSource) (transport : Transport) : Except SessionError Sent × Session :=
  s.post kind timestamp payload none vectors transport

def sendMessage {α : Type} [Payload α] (s : Session) (timestamp : UInt64) (value : α)
    (vectors : RandomSource) (transport : Transport) : Except SessionError Sent × Session :=
  match Payload.toDocument value with
  | .error e => (.error (.protocol e), s)
  | .ok payload => s.send (Payload.kind α) timestamp payload vectors transport

def signatureFor (s : Session) (timestamp : UInt64) (payload : Document) (nonces : RandomSource) :
    Except SecurityError (Option Signature) :=
  match s.authenticator with
  | none => .ok none
  | some a =>
    if a.key.isSome then (a.signFresh payload Envelope.currentVersion timestamp nonces).map some
    else .ok none

/-- Sends a command, signed where there is a key to sign with. -/
def sendCommand (s : Session) (timestamp : UInt64) (command : Command)
    (nonces vectors : RandomSource) (transport : Transport) : Except SessionError Sent × Session :=
  match Payload.toDocument command with
  | .error e => (.error (.protocol e), s)
  | .ok payload =>
    match s.signatureFor timestamp payload nonces with
    | .error e => (.error (.security e), s)
    | .ok signature => s.post .command timestamp payload signature vectors transport

/-- Checks a decoded message. Commands must be authentic where there is an authenticator, and pass
unchecked where there is none. -/
def judge (s : Session) (e : Envelope) : Except SessionError Inbound × Session :=
  match e.kind, s.authenticator with
  | .command, some a =>
    let (verdict, a) := a.validate e
    let s := { s with authenticator := some a }
    match verdict with
    | .ok () => (.ok ⟨e, true⟩, s)
    | .error _ => (.error .commandRejected, s)
  | _, _ => (.ok ⟨e, false⟩, s)

def receive (s : Session) (frame : Octets) : Except SessionError Inbound × Session :=
  let (opened, watermark) := Frame.openText s.context frame s.watermark
  let s := { s with watermark }
  match opened with
  | .error e => (.error (.security e), s)
  | .ok text =>
    match Envelope.decode text with
    | .error e => (.error (.protocol e), s)
    | .ok e => s.judge e

/-- Starts a new stream of frames; what was received is remembered. -/
def reconnect (s : Session) : Session := { s with context := s.context.resetCounter }

def describe (s : Session) (transport : String) : String :=
  Description.record "Session" [("crypto", s.context.describe),
    ("rx_watermark", "RxWatermark(" ++ toString s.watermark ++ ")"),
    ("codec", Description.record "EnvelopeCodec" [("prefer_cbor", Description.bool s.preferCbor)]),
    ("next_sequence", toString s.nextSequence),
    ("command_auth", Description.optional (s.authenticator.map (·.describe))),
    ("transport", transport)]

end Session
end FieldLink
