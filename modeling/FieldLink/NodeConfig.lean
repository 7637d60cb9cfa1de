import FieldLink.Description
import FieldLink.FileTree
import FieldLink.JsonDocument
import FieldLink.QuotedText
import FieldLink.SessionError
import FieldLink.Setting
import FieldLink.TomlReader

/-!
# The configuration of a node

What it is, what its connections protect and with which secrets, and where its command key is. Every field may
be missing and has a value then.
-/

namespace FieldLink

inductive Role where
  | sensor
  | hmi
deriving DecidableEq

namespace Role

def name : Role → String
  | .sensor => "sensor"
  | .hmi => "hmi"

def ofName? (name : String) : Option Role :=
  if name = "sensor" then some .sensor else if name = "hmi" then some .hmi else none

def describe : Role → String
  | .sensor => "Sensor"
  | .hmi => "Hmi"

end Role

/-- What connections protect, with the secrets as they are written. -/
structure ProtectionConfig where
  encryption : Bool := false
  handshake : Bool := false
  oneTimeCode : Bool := false
  secret : String := ""
  seed : String := ""
  period : UInt64 := 30
  digits : UInt32 := 6
  window : UInt32 := 1
  /-- How long a nonce of a handshake is remembered, in milliseconds. -/
  nonceWindow : UInt64 := 30000
  nonceCount : UInt64 := 16
deriving DecidableEq

/-- Where the key of commands is, if commands must be signed. -/
structure CommandKeyConfig where
  enabled : Bool := false
  directory : String := "/var/lib/nodelink/secrets"
  keyName : String := "cmd_key"
deriving DecidableEq

structure NodeConfig where
  role : Role := .sensor
  preferCbor : Bool := false
  token : String := ""
  protection : ProtectionConfig := {}
  commandKey : CommandKeyConfig := {}
deriving DecidableEq

namespace ProtectionConfig

def fieldNames : List String :=
  ["enable_encryption", "enable_handshake", "enable_totp", "secret_base64", "totp_secret_base32",
    "totp_period_s", "totp_digits", "totp_window", "handshake_replay_window_ms",
    "handshake_cache_size"]

def ofSetting? (style : SettingStyle) (s : Setting) : Option ProtectionConfig := do
  let standard : ProtectionConfig := {}
  match ← Setting.fields? style fieldNames s with
  | [encryption, handshake, oneTimeCode, secret, seed, period, digits, window, nonceWindow,
      nonceCount] =>
    return {
      encryption := ← Setting.field Setting.bool? standard.encryption encryption
      handshake := ← Setting.field Setting.bool? standard.handshake handshake
      oneTimeCode := ← Setting.field Setting.bool? standard.oneTimeCode oneTimeCode
      secret := ← Setting.field Setting.text? standard.secret secret
      seed := ← Setting.field Setting.text? standard.seed seed
      period := ← Setting.field Setting.uint64? standard.period period
      digits := ← Setting.field Setting.uint32? standard.digits digits
      window := ← Setting.field Setting.uint32? standard.window window
      nonceWindow := ← Setting.field Setting.uint64? standard.nonceWindow nonceWindow
      nonceCount := ← Setting.field Setting.uint64? standard.nonceCount nonceCount }
  | _ => none

def toDocument (p : ProtectionConfig) : Document :=
  .object (fieldNames.zip [.bool p.encryption, .bool p.handshake, .bool p.oneTimeCode, .text p.secret,
    .text p.seed, .ofUInt64 p.period, .ofUInt32 p.digits, .ofUInt32 p.window,
    .ofUInt64 p.nonceWindow, .ofUInt64 p.nonceCount])

def describe (p : ProtectionConfig) : String :=
  Description.record "SecuritySettings" (fieldNames.zip [Description.bool p.encryption,
    Description.bool p.handshake, Description.bool p.oneTimeCode, quoteText Description.redacted,
    quoteText Description.redacted, toString p.period, toString p.digits, toString p.window,
    toString p.nonceWindow, toString p.nonceCount])

end ProtectionConfig

namespace CommandKeyConfig

def fieldNames : List String := ["enabled", "store_dir", "key_name"]

def ofSetting? (style : SettingStyle) (s : Setting) : Option CommandKeyConfig := do
  let standard : CommandKeyConfig := {}
  match ← Setting.fields? style fieldNames s with
  | [enabled, directory, keyName] =>
    return {
      enabled := ← Setting.field Setting.bool? standard.enabled enabled
      directory := ← Setting.field Setting.text? standard.directory directory
      keyName := ← Setting.field Setting.text? standard.keyName keyName }
  | _ => none

def toDocument (c : CommandKeyConfig) : Document :=
  .object (fieldNames.zip [.bool c.enabled, .text c.directory, .text c.keyName])

def describe (c : CommandKeyConfig) : String :=
  Description.record "CommandAuthSettings" (fieldNames.zip [Description.bool c.enabled,
    quoteText c.directory, quoteText c.keyName])

end CommandKeyConfig

namespace NodeConfig

def fieldNames : List String := ["role", "prefer_cbor", "auth_token", "security", "command_auth"]

def ofSetting? (style : SettingStyle) (s : Setting) : Option NodeConfig := do
  match ← Setting.fields? style fieldNames s with
  | [role, preferCbor, token, protection, commandKey] =>
    return {
      role := ← Setting.field (fun s => s.name? style >>= Role.ofName?) .sensor role
      preferCbor := ← Setting.field Setting.bool? false preferCbor
      token := ← Setting.field Setting.text? "" token
      protection := ← Setting.field (ProtectionConfig.ofSetting? style) {} protection
      commandKey := ← Setting.field (CommandKeyConfig.ofSetting? style) {} commandKey }
  | _ => none

def ofJson? (text : List Char) : Option NodeConfig := do
  ofSetting? .json (.ofJson (← JsonReader.read? text))

def ofToml? (text : List Char) : Option NodeConfig := do
  ofSetting? .toml (.table (Setting.ofTomlMembers (← TomlReader.read? text)))

/-- The ending of the last name of a path: what stands after its last point, unless nothing stands before
it. -/
def ending (path : String) : String :=
  let reversed := path.toList.reverse.takeWhile (· ≠ '/')
  match reversed.dropWhile (· ≠ '.') with
  | _ :: _ :: _ => .ofList (reversed.takeWhile (· ≠ '.')).reverse
  | _ => ""

/-- The configuration in the file at a path. The ending of its name, in either letter case, tells the kind
of file. -/
def read (files : FileTree) (path : String) : Except SessionError NodeConfig :=
  match (files.read path).toOption.bind Utf8.decode? with
  | none => .error .inputOutput
  | some text =>
    let found (config : Option NodeConfig) : Except SessionError NodeConfig :=
      match config with
      | some config => .ok config
      | none => .error (.settings .unreadable)
    let kind := (ending path).toLower
    if kind = "toml" then found (ofToml? text)
    else if kind = "json" then found (ofJson? text)
    else .error (.settings (.fileKind (ending path)))

def toDocument (c : NodeConfig) : Document :=
  .object (fieldNames.zip [.text c.role.name, .bool c.preferCbor, .text c.token,
    c.protection.toDocument, c.commandKey.toDocument])

def describe (c : NodeConfig) : String :=
  Description.record "NodeConfig" (fieldNames.zip [c.role.describe, Description.bool c.preferCbor,
    quoteText c.token, c.protection.describe, c.commandKey.describe])

end NodeConfig
end FieldLink
