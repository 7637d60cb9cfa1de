import FieldLink.ProtocolError
import FieldLink.SecurityError

/-!
# What can go wrong with a connection and with the settings of a node

The wording takes `detail`, which stands for what the reader of a text has to say beyond the cause.
-/

namespace FieldLink

/-- What is wrong with the settings of a node. -/
inductive SettingsFault where
  | unreadable
  | fileKind (ending : String)
  | secretMissing
  | secretUnreadable
  | secretEmpty
  | seedMissing
  | seedUnreadable (fault : ArgumentFault)
  | codes (fault : ArgumentFault)
  | keyNameEmpty
deriving DecidableEq

inductive SessionError where
  | protocol (e : ProtocolError)
  | security (e : SecurityError)
  | commandRejected
  | channelClosed
  | settings (fault : SettingsFault)
  | inputOutput
deriving DecidableEq

def SettingsFault.message (detail : String) : SettingsFault → String
  | .unreadable => detail
  | .fileKind ending => s!"unsupported config file extension: {ending}"
  | .secretMissing => "encryption or handshake enabled without security.secret_base64"
  | .secretUnreadable => s!"security.secret_base64: {detail}"
  | .secretEmpty => "security.secret_base64 decodes to nothing"
  | .seedMissing => "TOTP enabled without security.totp_secret_base32"
  | .seedUnreadable fault =>
    let reason := (SecurityError.invalidArgument fault).message
    s!"security.totp_secret_base32: {reason}"
  | .codes fault =>
    let reason := (SecurityError.invalidArgument fault).message
    s!"security.totp: {reason}"
  | .keyNameEmpty => "command_auth.key_name is empty"

def SessionError.message (detail : String) : SessionError → String
  | .protocol e =>
    let reason := e.message detail
    s!"protocol error: {reason}"
  | .security e =>
    let reason := e.message
    s!"security error: {reason}"
  | .commandRejected => "command rejected"
  | .channelClosed => "transport error: channel closed"
  | .settings fault =>
    let reason := fault.message detail
    s!"configuration error: {reason}"
  | .inputOutput => "I/O error: " ++ detail

end FieldLink
