import FieldLink.Arguments
import FieldLink.Command
import FieldLink.NumberText

/-!
# What the diagnostic tool is asked to do

Subcommands with their options.
-/

namespace FieldLink

structure CommandRequest where
  key : String
  channel : Option UInt8
  duty : Option UInt16
  frequency : Option UInt16
  expander : Option Expander
  port : Option Port
  mask : Option UInt16
  value : Option UInt16
  /-- In milliseconds; the present, if it is missing. -/
  timestamp : Option UInt64
  sequence : UInt32
  preferCbor : Bool
deriving DecidableEq

inductive ToolRequest where
  | deriveKeys (secret : String)
  /-- Computes a one-time code, for a time in seconds or for the present. -/
  | oneTimeCode (seed : String) (time : Option UInt64) (digits : UInt32) (period : UInt64)
  /-- Signs a handshake, with a nonce or with a random one. -/
  | signHandshake (secret token : String) (nonce : Option String)
  | command (request : CommandRequest)
  | decode (octets : String)
deriving DecidableEq

namespace CommandRequest

/-- The command with every action whose options are all there. -/
def toCommand (r : CommandRequest) : Command where
  duty := do return ⟨← r.channel, ← r.duty⟩
  frequency := r.frequency.map fun f => ⟨f⟩
  port := do return ⟨← r.expander, ← r.port, ← r.mask, ← r.value⟩

end CommandRequest

namespace ToolRequest

open Arguments

def uint8? (text : String) : Option UInt8 := (NumberText.readSigned? (2 ^ 8) text.toList).map .ofNat
def uint16? (text : String) : Option UInt16 := (NumberText.readSigned? (2 ^ 16) text.toList).map .ofNat
def uint32? (text : String) : Option UInt32 := (NumberText.readSigned? (2 ^ 32) text.toList).map .ofNat
def uint64? (text : String) : Option UInt64 := (NumberText.read? (2 ^ 64) text.toList).map .ofNat

def port? (text : String) : Option Port := Port.ofName? text.toUpper

/-- Names of options that may come from the environment, with the names of the variables. -/
def secretVariable : String := "NODELINK_SECRET_HEX"
def seedVariable : String := "NODELINK_TOTP_SECRET"
def keyVariable : String := "NODELINK_CMD_KEY_HEX"

def deriveKeys? (environment : String → Option String) (arguments : List String) :
    Option ToolRequest := do
  let o ← read? ["secret-hex"] [] arguments
  let o := o.orElse "secret-hex" (environment secretVariable)
  return .deriveKeys (← o.lookup "secret-hex")

def oneTimeCode? (environment : String → Option String) (arguments : List String) :
    Option ToolRequest := do
  let o ← read? ["secret-base32", "time", "digits", "period"] [] arguments
  let o := o.orElse "secret-base32" (environment seedVariable)
  return .oneTimeCode (← o.lookup "secret-base32") (← o.optional "time" uint64?)
    (← o.withDefault "digits" 6 uint32?) (← o.withDefault "period" 30 uint64?)

def signHandshake? (environment : String → Option String) (arguments : List String) :
    Option ToolRequest := do
  let o ← read? ["secret-hex", "token", "nonce-hex"] [] arguments
  let o := o.orElse "secret-hex" (environment secretVariable)
  return .signHandshake (← o.lookup "secret-hex") (← o.lookup "token") (o.lookup "nonce-hex")

def companions : List (String × List String) :=
  [("pwm-channel", ["pwm-duty"]), ("pwm-duty", ["pwm-channel"]),
    ("gpio-device", ["gpio-port", "gpio-mask", "gpio-value"])]

def isComplete (o : Options) : Bool :=
  companions.all fun (name, others) => !o.has name || others.all o.has

def command? (environment : String → Option String) (arguments : List String) :
    Option ToolRequest := do
  let o ← read? ["key-hex", "pwm-channel", "pwm-duty", "pwm-freq", "gpio-device", "gpio-port",
    "gpio-mask", "gpio-value", "timestamp-ms", "seq"] ["cbor"] arguments
  let o := o.orElse "key-hex" (environment keyVariable)
  if isComplete o then
    return .command {
      key := ← o.lookup "key-hex"
      channel := ← o.optional "pwm-channel" uint8?
      duty := ← o.optional "pwm-duty" uint16?
      frequency := ← o.optional "pwm-freq" uint16?
      expander := ← o.optional "gpio-device" Expander.ofName?
      port := ← o.optional "gpio-port" port?
      mask := ← o.optional "gpio-mask" uint16?
      value := ← o.optional "gpio-value" uint16?
      timestamp := ← o.optional "timestamp-ms" uint64?
      sequence := ← o.withDefault "seq" 1 uint32?
      preferCbor := o.has "cbor" }
  else none

def decode? (arguments : List String) : Option ToolRequest := do
  let o ← read? ["hex"] [] arguments
  return .decode (← o.lookup "hex")

def ofArguments? (environment : String → Option String) : List String → Option ToolRequest
  | [] => none
  | name :: rest =>
    if name = "derive-keys" then deriveKeys? environment rest
    else if name = "totp" then oneTimeCode? environment rest
    else if name = "sign-handshake" then signHandshake? environment rest
    else if name = "command" then command? environment rest
    else if name = "decode" then decode? rest
    else none

end ToolRequest
end FieldLink
