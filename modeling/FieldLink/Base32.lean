import FieldLink.Octets
import FieldLink.SecurityError
import FieldLink.Whitespace

/-!
# Base32 as people copy it

The alphabet of RFC 4648 is read in either letter case, with spaces anywhere, and with or without padding. Bits
left over at the end must be zero.
-/

namespace FieldLink.Base32

def value? (c : Char) : Option UInt32 :=
  let n := c.toNat
  if 65 ≤ n ∧ n ≤ 90 then some (.ofNat (n - 65))
  else if 97 ≤ n ∧ n ≤ 122 then some (.ofNat (n - 97))
  else if 50 ≤ n ∧ n ≤ 55 then some (.ofNat (n - 50 + 26))
  else none

/-- The characters that count: none that are spaces, and none from the first `=` on. -/
def significant (text : List Char) : List Char :=
  (text.filter fun c => !isSpace c).takeWhile (· ≠ '=')

def values : List Char → Except ArgumentFault (List UInt32)
  | [] => .ok []
  | c :: rest =>
    match value? c with
    | none => .error (.base32Character c)
    | some value => (values rest).map (value :: ·)

/-- Bits that were read and are not given out yet: the last `count` ones of a word. -/
structure Pending where
  buffer : UInt32
  count : UInt32

namespace Pending

def empty : Pending := ⟨0, 0⟩

def take (p : Pending) (value : UInt32) : Option UInt8 × Pending :=
  let buffer := p.buffer <<< 5 ||| value
  let count := p.count + 5
  if 8 ≤ count then
    let left := count - 8
    (some (buffer >>> left).toUInt8, ⟨buffer &&& (1 <<< left - 1), left⟩)
  else (none, ⟨buffer, count⟩)

end Pending

/-- Groups of five bits made groups of eight. What is pending at the end is given back. -/
def regroup (p : Pending) : List UInt32 → Octets × Pending
  | [] => ([], p)
  | value :: rest =>
    let (octet, p) := p.take value
    let (octets, last) := regroup p rest
    (octet.toList ++ octets, last)

def decode (text : String) : Except ArgumentFault Octets := do
  let values ← values (significant text.toList)
  let (octets, last) := regroup .empty values
  if 0 < last.count ∧ last.buffer ≠ 0 then .error .base32Trailing else .ok octets

end FieldLink.Base32
