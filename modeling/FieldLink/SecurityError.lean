import FieldLink.QuotedText

/-!
# What can go wrong with keys, frames, handshakes and stored secrets

Whatever a peer sends that is not authentic is an invalid response and nothing more.
-/

namespace FieldLink

inductive StoreError where
  | notFound (name : String)
  | invalidName (name : String)
  | inputOutput
deriving DecidableEq

/-- Misuse by a caller. -/
inductive ArgumentFault where
  | emptySecret
  | emptyLabel
  | secretRequired
  | codeSettingsRequired
  | counterExhausted
  | textTooLong
  | emptySeed
  | zeroPeriod
  | digitCount (digits : UInt32)
  | base32Character (c : Char)
  | base32Trailing
  | emptyNonce
  | emptyToken
  | missingAuthorization
  | commandKeyLength (length : Nat)
  | emptyCommandKey
  | nonceLength
deriving DecidableEq

/-- Key material that is missing or unfit. -/
inductive ConfigurationFault where
  | noCommandKey
  | storedKeyLength (name : String) (length : Nat)
deriving DecidableEq

inductive Feature where
  | encryption
  | handshake
  | oneTimeCode
deriving DecidableEq

inductive SecurityError where
  | invalidArgument (fault : ArgumentFault)
  | bufferTooSmall (needed available : Nat)
  | invalidResponse
  | configuration (fault : ConfigurationFault)
  | disabled (feature : Feature)
  | keyStore (e : StoreError)
deriving DecidableEq

def StoreError.message : StoreError → String
  | .notFound name => s!"secret '{name}' not found"
  | .invalidName name => s!"invalid secret name '{name}'"
  | .inputOutput => "secret store I/O error"

def ArgumentFault.message : ArgumentFault → String
  | .emptySecret => "empty shared secret"
  | .emptyLabel => "empty derivation label"
  | .secretRequired => "shared secret required for encryption or handshake"
  | .codeSettingsRequired => "TOTP enabled without TOTP parameters"
  | .counterExhausted => "tx counter exhausted"
  | .textTooLong => "plaintext too long to seal"
  | .emptySeed => "empty TOTP secret"
  | .zeroPeriod => "TOTP period must be nonzero"
  | .digitCount digits => s!"TOTP digits must be 6..=8, got {digits}"
  | .base32Character c =>
    let quoted := quoteChar c
    s!"invalid base32 character {quoted}"
  | .base32Trailing => "non-zero trailing bits in base32 input"
  | .emptyNonce => "empty handshake nonce"
  | .emptyToken => "empty handshake token"
  | .missingAuthorization => "missing Authorization header"
  | .commandKeyLength length => s!"command key must be 32 bytes, got {length}"
  | .emptyCommandKey => "empty command key"
  | .nonceLength => "nonce must be 1..=16 bytes"

def ConfigurationFault.message : ConfigurationFault → String
  | .noCommandKey => "no command key loaded"
  | .storedKeyLength name length => s!"command key '{name}' must be 32 bytes, got {length}"

def Feature.name : Feature → String
  | .encryption => "encryption"
  | .handshake => "handshake"
  | .oneTimeCode => "totp"

def SecurityError.message : SecurityError → String
  | .invalidArgument fault =>
    let reason := fault.message
    s!"invalid argument: {reason}"
  | .bufferTooSmall needed available =>
    s!"buffer too small: need {needed} bytes, have {available}"
  | .invalidResponse => "invalid response"
  | .configuration fault =>
    let reason := fault.message
    s!"configuration error: {reason}"
  | .disabled feature =>
    let name := feature.name
    s!"{name} is not enabled"
  | .keyStore e =>
    let reason := e.message
    s!"key store: {reason}"

end FieldLink
