import FieldLink.Admission
import FieldLink.Base32
import FieldLink.Base64
import FieldLink.NodeConfig
import FieldLink.Session

/-!
# Starting a node from its configuration

Secrets are decoded and checked; whatever is enabled must have a usable secret.
-/

namespace FieldLink

namespace ProtectionConfig

/-- The shared secret, which must be there for encryption and for handshakes. -/
def secretOctets (p : ProtectionConfig) : Except SettingsFault Octets :=
  let needed := p.encryption || p.handshake
  let text := trim p.secret.toList
  if text = [] then if needed then .error .secretMissing else .ok []
  else
    match Base64.decode? text with
    | none => .error .secretUnreadable
    | some secret => if needed ∧ secret = [] then .error .secretEmpty else .ok secret

def codes (p : ProtectionConfig) : Except SettingsFault (Option CodeSettings) :=
  if !p.oneTimeCode then .ok none
  else if trim p.seed.toList = [] then .error .seedMissing
  else do
    let seed ← (Base32.decode p.seed).mapError .seedUnreadable
    let codes : CodeSettings := ⟨seed, p.period, p.digits, p.window⟩
    codes.check.mapError .codes
    return some codes

end ProtectionConfig

namespace NodeConfig

def securitySettings (c : NodeConfig) : Except SessionError SecuritySettings :=
  Except.mapError .settings do
    let secret ← c.protection.secretOctets
    let codes ← c.protection.codes
    return {
      encryption := c.protection.encryption
      handshake := c.protection.handshake
      oneTimeCode := c.protection.oneTimeCode
      secret, codes }

def validate (c : NodeConfig) : Except SessionError Unit := do
  let _ ← c.securitySettings
  if c.commandKey.enabled ∧ c.commandKey.keyName = "" then .error (.settings .keyNameEmpty) else .ok ()

/-- The connections that a node with this configuration admits: none yet. -/
def admission (c : NodeConfig) : Admission :=
  .start c.token c.protection.nonceCount.toNat c.protection.nonceWindow

/-- The authenticator with the key of commands, where commands must be signed. The key is in the files of
the machine. -/
def authenticator (c : NodeConfig) (files : FileTree) : Except SessionError (Option Authenticator) :=
  if c.commandKey.enabled then
    let store : SecretStore := .directory c.commandKey.directory files
    match Authenticator.fresh.load store c.commandKey.keyName with
    | (.ok (), a) => .ok (some a)
    | (.error e, _) => .error (.security e)
  else .ok none

def securityContext (c : NodeConfig) : Except SessionError SecurityContext := do
  let settings ← c.securitySettings
  (SecurityContext.ofSettings settings).mapError .security

end NodeConfig

def Session.ofConfig (c : NodeConfig) (files : FileTree) : Except SessionError Session := do
  c.validate
  let context ← c.securityContext
  let authenticator ← c.authenticator files
  return .start context c.preferCbor authenticator

end FieldLink
