import FieldLink.Base32
import FieldLink.Description
import FieldLink.Hmac

/-!
# Time-based one-time codes (RFC 6238 over HMAC-SHA-1)

Time is in seconds; a code belongs to a period and is accepted some periods early or late.
-/

namespace FieldLink

structure CodeSettings where
  seed : Octets
  period : UInt64
  digits : UInt32
  /-- How many periods a code may be early or late. -/
  window : UInt32
deriving DecidableEq

namespace CodeSettings

def defaultPeriod : UInt64 := 30
def defaultDigits : UInt32 := 6
def defaultWindow : UInt32 := 1

def ofSeed (seed : Octets) : CodeSettings := ⟨seed, defaultPeriod, defaultDigits, defaultWindow⟩

/-- Refuses an empty seed, a period of zero, and other than six to eight digits. -/
def check (s : CodeSettings) : Except ArgumentFault Unit :=
  if s.seed = [] then .error .emptySeed
  else if s.period = 0 then .error .zeroPeriod
  else if 6 ≤ s.digits ∧ s.digits ≤ 8 then .ok ()
  else .error (.digitCount s.digits)

/-- Four octets of a digest, at the place that its last octet names, without the top bit. -/
def truncateDigest (digest : Octets) : Nat :=
  let offset := (digest.getD 19 0).toNat % 16
  Octets.toNat ((digest.drop offset).take 4) % 2 ^ 31

def codeOfPeriod (s : CodeSettings) (number : Nat) : UInt32 :=
  UInt32.ofNat (truncateDigest (Hmac.sha1 s.seed (Octets.bigEndian 8 number)) % 10 ^ s.digits.toNat)

def codeAt (s : CodeSettings) (time : Nat) : UInt32 := s.codeOfPeriod (time / s.period.toNat)

def compute (s : CodeSettings) (time : UInt64) : Except ArgumentFault UInt32 := do
  s.check
  return s.codeAt time.toNat

/-- The distance of `steps` periods in time, at most the greatest time. -/
def distance (s : CodeSettings) (steps : Nat) : Nat := min (steps * s.period.toNat) (2 ^ 64 - 1)

/-- Whether the code belongs to one of the periods up to `steps` before, none of them before zero. -/
def matchesBefore (s : CodeSettings) (time : Nat) (code : UInt32) : Nat → Bool
  | 0 => false
  | steps + 1 =>
    let d := s.distance (steps + 1)
    if d ≤ time ∧ s.codeAt (time - d) = code then true else matchesBefore s time code steps

/-- Whether the code belongs to the current period or one of the `steps` after it, none of them past
the greatest time. -/
def matchesAfter (s : CodeSettings) (time : Nat) (code : UInt32) : Nat → Bool
  | 0 => s.codeAt time = code
  | steps + 1 =>
    let d := s.distance (steps + 1)
    if time + d < 2 ^ 64 ∧ s.codeAt (time + d) = code then true else matchesAfter s time code steps

def verify (s : CodeSettings) (time : UInt64) (code : UInt32) : Except ArgumentFault Bool := do
  s.check
  return s.matchesBefore time.toNat code s.window.toNat || s.matchesAfter time.toNat code s.window.toNat

def format (code : UInt32) (digits : UInt32) : String :=
  let text := Nat.toDigits 10 code.toNat
  String.ofList (List.replicate (digits.toNat - text.length) '0' ++ text)

def describe (s : CodeSettings) : String :=
  Description.record "TotpConfig" [("secret", Description.secret "TotpSecret"),
    ("period_s", toString s.period), ("digits", toString s.digits), ("window", toString s.window)]

end CodeSettings
end FieldLink
