import FieldLink.Envelope
import FieldLink.NonceHistory
import FieldLink.RandomSource
import FieldLink.SecretStore
import FieldLink.SecurityContext

/-!
# Authentic commands

A command is signed with a keyed digest over version, time stamp, nonce and compact payload; the receiver keeps
a watermark of time stamps and the nonces it accepted last.
-/

namespace FieldLink

def signedOctets (payload : Document) (version : UInt32) (timestamp : UInt64) (nonce : Octets) :
    Octets :=
  Octets.bigEndian 4 version.toNat ++ Octets.bigEndian 8 timestamp.toNat ++ nonce ++ payload.writeJson

def commandTag (payload : Document) (version : UInt32) (timestamp : UInt64) (nonce key : Octets) :
    String :=
  Hexadecimal.encode (Hmac.sha256 key (signedOctets payload version timestamp nonce))

/-- The tag of a command, for a key of any length but zero and a nonce of the right length. -/
def commandMac (payload : Document) (version : UInt32) (timestamp : UInt64) (nonce key : Octets) :
    Except ArgumentFault String :=
  if key = [] then .error .emptyCommandKey
  else if NonceHistory.isNonce nonce then .ok (commandTag payload version timestamp nonce key)
  else .error .nonceLength

inductive Rejection where
  | missingSignature
  | noKey
  | staleTimestamp
  | unsupportedAlgorithm
  | malformedMac
  | malformedNonce
  | replayedNonce
  | macMismatch
deriving DecidableEq

def Rejection.message : Rejection → String
  | .missingSignature => "no auth block"
  | .noKey => "no command key loaded"
  | .staleTimestamp => "stale timestamp"
  | .unsupportedAlgorithm => "unsupported algorithm"
  | .malformedMac => "malformed mac"
  | .malformedNonce => "malformed nonce"
  | .replayedNonce => "replayed nonce"
  | .macMismatch => "mac mismatch"

structure Authenticator where
  key : Option Key
  history : NonceHistory
  /-- The latest time stamp, zero where none was seen. -/
  latest : UInt64

namespace Authenticator

def algorithm : String := "HS256"

def macLength : Nat := 64

def signingNonceLength : Nat := 8

/-- How far a time stamp may lie behind the latest one, in milliseconds. -/
def replayWindow : Nat := 60000

def fresh : Authenticator := ⟨none, .empty, 0⟩

def keyOf (octets : Octets) : Except SecurityError Key :=
  match Key.ofOctets? octets with
  | some key => .ok key
  | none => .error (.invalidArgument (.commandKeyLength octets.length))

def forgetKey (_ : Authenticator) : Authenticator := fresh

def resetHistory (a : Authenticator) : Authenticator := { a with history := .empty, latest := 0 }

/-- Takes a new key in place of key and replay state; a wrong one changes nothing. -/
def setKey (a : Authenticator) (octets : Octets) : Except SecurityError Unit × Authenticator :=
  match keyOf octets with
  | .ok key => (.ok (), { a.forgetKey with key := some key })
  | .error e => (.error e, a)

def withKey (octets : Octets) : Except SecurityError Authenticator := do
  let key ← keyOf octets
  return { fresh with key := some key }

/-- Loads a key from a store. Any failure leaves no key. -/
def load (a : Authenticator) (store : SecretStore) (name : String) :
    Except SecurityError Unit × Authenticator :=
  let a := a.forgetKey
  match store.get name with
  | .error e => (.error (.keyStore e), a)
  | .ok octets =>
    match Key.ofOctets? octets with
    | some key => (.ok (), { a with key := some key })
    | none => (.error (.configuration (.storedKeyLength name octets.length)), a)

def isFresh (latest timestamp : UInt64) : Bool :=
  latest = 0 ∨ latest.toNat ≤ min (timestamp.toNat + replayWindow) (2 ^ 64 - 1)

/-- What the signature of an envelope is checked against, after the time stamp: the nonce, if all is
right. -/
def checkSignature (key : Key) (history : NonceHistory) (e : Envelope) (s : Signature) :
    Except Rejection Octets :=
  if s.algorithm.any (· ≠ algorithm) then .error .unsupportedAlgorithm
  else if s.mac.utf8ByteSize ≠ macLength then .error .malformedMac
  else
    match Hexadecimal.decode? s.nonce with
    | none => .error .malformedNonce
    | some nonce =>
      if !NonceHistory.isNonce nonce then .error .malformedNonce
      else if history.contains nonce then .error .replayedNonce
      else if commandTag e.payload e.version e.timestamp nonce key.octets = s.mac then .ok nonce
      else .error .macMismatch

/-- Checks a command. A fresh time stamp moves the watermark before anything else is checked; the nonce
is recorded only when all is right. -/
def validate (a : Authenticator) (e : Envelope) : Except Rejection Unit × Authenticator :=
  match e.signature, a.key with
  | none, _ => (.error .missingSignature, a)
  | some _, none => (.error .noKey, a)
  | some s, some key =>
    if isFresh a.latest e.timestamp then
      let a := { a with latest := max a.latest e.timestamp }
      match checkSignature key a.history e s with
      | .error rejection => (.error rejection, a)
      | .ok nonce => (.ok (), { a with history := a.history.record nonce e.timestamp })
    else (.error .staleTimestamp, a)

def sign (a : Authenticator) (payload : Document) (version : UInt32) (timestamp : UInt64)
    (nonce : Octets) : Except SecurityError Signature :=
  match a.key with
  | none => .error (.configuration .noCommandKey)
  | some key => do
    let mac ← (commandMac payload version timestamp nonce key.octets).mapError .invalidArgument
    return ⟨Hexadecimal.encode nonce, mac, some algorithm⟩

def signFresh (a : Authenticator) (payload : Document) (version : UInt32) (timestamp : UInt64)
    (source : RandomSource) : Except SecurityError Signature :=
  a.sign payload version timestamp (source.draw signingNonceLength).1

def describe (a : Authenticator) : String :=
  Description.record "CommandAuthenticator"
    [("key", Description.optional (a.key.map fun _ => Description.secret "CommandKey")),
      ("history", a.history.describe), ("latest_timestamp_ms", toString a.latest)]

end Authenticator
end FieldLink
