import FieldLink.Octets

/-!
# Characters as UTF-8 octets

Reading accepts the shortest form of every scalar value and nothing else, so text and its octets determine each
other.
-/

namespace FieldLink.Utf8

def encodeChar (c : Char) : Octets :=
  let n := c.toNat
  if n < 0x80 then [UInt8.ofNat n]
  else if n < 0x800 then [UInt8.ofNat (0xC0 + n / 64), UInt8.ofNat (0x80 + n % 64)]
  else if n < 0x10000 then
    [UInt8.ofNat (0xE0 + n / 4096), UInt8.ofNat (0x80 + n / 64 % 64), UInt8.ofNat (0x80 + n % 64)]
  else
    [UInt8.ofNat (0xF0 + n / 262144), UInt8.ofNat (0x80 + n / 4096 % 64),
      UInt8.ofNat (0x80 + n / 64 % 64), UInt8.ofNat (0x80 + n % 64)]

def encode (text : List Char) : Octets := text.flatMap encodeChar

def continuation? (octet : UInt8) : Option Nat :=
  if 0x80 ≤ octet.toNat ∧ octet.toNat < 0xC0 then some (octet.toNat - 0x80) else none

/-- The character with code `n`, which must lie at or above `least` and be no surrogate. -/
def scalar? (least n : Nat) : Option Char :=
  if least ≤ n ∧ n.isValidChar then some (Char.ofNat n) else none

/-- The first character of an octet string and what follows it. -/
def decodeChar? : Octets → Option (Char × Octets)
  | [] => none
  | a :: rest =>
    if a.toNat < 0x80 then some (Char.ofNat a.toNat, rest)
    else if a.toNat < 0xC0 then none
    else if a.toNat < 0xE0 then
      match rest with
      | b :: rest => do
        let b ← continuation? b
        let c ← scalar? 0x80 ((a.toNat - 0xC0) * 64 + b)
        return (c, rest)
      | _ => none
    else if a.toNat < 0xF0 then
      match rest with
      | b :: c :: rest => do
        let b ← continuation? b
        let c ← continuation? c
        let char ← scalar? 0x800 (((a.toNat - 0xE0) * 64 + b) * 64 + c)
        return (char, rest)
      | _ => none
    else if a.toNat < 0xF8 then
      match rest with
      | b :: c :: d :: rest => do
        let b ← continuation? b
        let c ← continuation? c
        let d ← continuation? d
        let char ← scalar? 0x10000 ((((a.toNat - 0xF0) * 64 + b) * 64 + c) * 64 + d)
        return (char, rest)
      | _ => none
    else none

theorem length_of_decodeChar? {octets rest : Octets} {c : Char}
    (h : decodeChar? octets = some (c, rest)) : rest.length < octets.length := by
  unfold decodeChar? at h
  split at h
  · cases h
  · simp only [bind, Option.bind, pure] at h
    repeat' split at h
    all_goals grind

def decode? (octets : Octets) : Option (List Char) :=
  match octets with
  | [] => some []
  | octet :: octets =>
    match h : decodeChar? (octet :: octets) with
    | none => none
    | some (c, rest) =>
      have := length_of_decodeChar? h
      (decode? rest).map (c :: ·)
termination_by octets.length
decreasing_by exact this

end FieldLink.Utf8
