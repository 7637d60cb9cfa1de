import FieldLink.OneTimeCode

/-!
# The keys and the send counter of one connection

Each purpose has a key of its own, derived from the shared secret under a label.
-/

namespace FieldLink

structure Key where
  octets : Octets
  length_eq : octets.length = 32
deriving DecidableEq

namespace Key

def ofOctets? (octets : Octets) : Option Key :=
  if h : octets.length = 32 then some ⟨octets, h⟩ else none

def derive (secret label : Octets) : Except ArgumentFault Key :=
  if secret = [] then .error .emptySecret
  else if label = [] then .error .emptyLabel
  else .ok ⟨Hmac.sha256 secret label, Hmac.length_sha256 secret label⟩

def handshakeLabel : Octets := "ws-handshake".toUTF8.toList

def frameLabel : Octets := "ws-frame".toUTF8.toList

end Key

structure SecuritySettings where
  encryption : Bool
  handshake : Bool
  oneTimeCode : Bool
  secret : Octets
  codes : Option CodeSettings
deriving DecidableEq

/-- Keys and send state of one connection; a feature is enabled where its key is there. -/
structure SecurityContext where
  handshakeKey : Option Key
  frameKey : Option Key
  sent : UInt64
  codes : Option CodeSettings
deriving DecidableEq

namespace SecurityContext

def disabled : SecurityContext := ⟨none, none, 0, none⟩

/-- The code settings of a connection, checked when codes are asked for. -/
def checkedCodes (s : SecuritySettings) : Except ArgumentFault (Option CodeSettings) :=
  if s.oneTimeCode then
    match s.codes with
    | none => .error .codeSettingsRequired
    | some codes => codes.check.map fun _ => some codes
  else .ok none

def keyFor (wanted : Bool) (secret label : Octets) : Except ArgumentFault (Option Key) :=
  if wanted then (Key.derive secret label).map some else .ok none

def ofSettings (s : SecuritySettings) : Except SecurityError SecurityContext :=
  if (s.encryption ∨ s.handshake) ∧ s.secret = [] then .error (.invalidArgument .secretRequired)
  else Except.mapError .invalidArgument do
    let handshakeKey ← keyFor s.handshake s.secret Key.handshakeLabel
    let frameKey ← keyFor s.encryption s.secret Key.frameLabel
    let codes ← checkedCodes s
    return ⟨handshakeKey, frameKey, 0, codes⟩

def resetCounter (c : SecurityContext) : SecurityContext := { c with sent := 0 }

/-- The context with the next counter, if there is one. -/
def advance (c : SecurityContext) : Except SecurityError SecurityContext :=
  if c.sent = UInt64.ofNat (2 ^ 64 - 1) then .error (.invalidArgument .counterExhausted)
  else .ok { c with sent := c.sent + 1 }

def enabledCodes (c : SecurityContext) : Except SecurityError CodeSettings :=
  match c.codes with
  | some codes => .ok codes
  | none => .error (.disabled .oneTimeCode)

def code (c : SecurityContext) (time : UInt64) : Except SecurityError UInt32 := do
  let codes ← c.enabledCodes
  (codes.compute time).mapError .invalidArgument

def verifyCode (c : SecurityContext) (time : UInt64) (code : UInt32) : Except SecurityError Bool := do
  let codes ← c.enabledCodes
  (codes.verify time code).mapError .invalidArgument

def describe (c : SecurityContext) : String :=
  let key (k : Option Key) : String :=
    Description.optional (k.map fun _ => Description.secret "DerivedKey")
  Description.record "FrameCryptoContext" [("handshake_key", key c.handshakeKey),
    ("frame_key", key c.frameKey), ("tx_counter", toString c.sent),
    ("totp", Description.optional (c.codes.map (·.describe)))]

end SecurityContext
end FieldLink
