import FieldLink.Tool
import Std.Time.DateTime.Timestamp

/-! # The command line of the diagnostic tool -/

namespace FieldLink

def systemClock : IO Clock := do
  let now ← Std.Time.Timestamp.now
  return ⟨.ofNat now.toMillisecondsSinceUnixEpoch.val.toNat⟩

/-- The variables of the environment that options fall back to. -/
def systemEnvironment : IO (String → Option String) := do
  let names := [ToolRequest.secretVariable, ToolRequest.seedVariable, ToolRequest.keyVariable]
  let found ← names.mapM fun name => do return (name, ← IO.getEnv name)
  return fun name => (found.lookup name).join

end FieldLink

open FieldLink in
def main (arguments : List String) : IO UInt32 := do
  match ToolRequest.ofArguments? (← systemEnvironment) arguments with
  | none =>
    IO.eprintln "usage: derive-keys | totp | sign-handshake | command | decode, with their options"
    return 2
  | some request =>
    let source : RandomSource := .cycle (← IO.getRandomBytes 32).toList
    match Tool.run (← systemClock) source request with
    | .ok text => IO.println text; return 0
    | .error e => IO.eprintln (e.message "unreadable"); return 1
