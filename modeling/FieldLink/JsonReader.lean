import FieldLink.Hexadecimal
import FieldLink.Json

/-!
# Reading JSON texts from characters

Each step returns what it read and what follows; the steps of nested values are bounded by the length of the
text.
-/

namespace FieldLink.JsonReader

def isBlank (c : Char) : Bool := c = ' ' ∨ c = '\t' ∨ c = '\n' ∨ c = '\r'

def isDigit (c : Char) : Bool := 48 ≤ c.toNat ∧ c.toNat ≤ 57

def skipBlank (text : List Char) : List Char := text.dropWhile isBlank

def digitsValue (digits : List Char) : Nat :=
  digits.foldl (fun n c => n * 10 + (c.toNat - 48)) 0

def readDigits (text : List Char) : Option (List Char × List Char) :=
  let digits := text.takeWhile isDigit
  if digits.isEmpty then none else some (digits, text.dropWhile isDigit)

/-- The digits before the point: no zero stands in front of another digit. -/
def readWhole (text : List Char) : Option (List Char × List Char) := do
  let (digits, rest) ← readDigits text
  if digits.head? = some '0' ∧ digits.length ≠ 1 then none else some (digits, rest)

def readFraction : List Char → Option (List Char × List Char)
  | '.' :: rest => readDigits rest
  | rest => some ([], rest)

def readSigned : List Char → Option (Int × List Char)
  | '-' :: rest => (readDigits rest).map fun (digits, rest) => (-(digitsValue digits : Int), rest)
  | '+' :: rest => (readDigits rest).map fun (digits, rest) => (digitsValue digits, rest)
  | rest => (readDigits rest).map fun (digits, rest) => (digitsValue digits, rest)

def readExponent : List Char → Option (Option Int × List Char)
  | 'e' :: rest => (readSigned rest).map fun (e, rest) => (some e, rest)
  | 'E' :: rest => (readSigned rest).map fun (e, rest) => (some e, rest)
  | rest => some (none, rest)

def keptDigits : Nat := 768

/-- Digits and an exponent as a coefficient and an exponent. Of long digits the first are kept, and a digit
one stands for all that follow: it is not zero, so that what follows decides a tie, and does so even where it
is made of zeros alone. -/
def abridge (digits : List Char) (exponent : Int) : Nat × Int :=
  let significant := digits.dropWhile (· = '0')
  let surplus := significant.length - keptDigits
  if surplus = 0 then (digitsValue significant, exponent)
  else (digitsValue (significant.take keptDigits ++ ['1']), exponent + surplus - 1)

/-- A number without its sign. Zeros at the end of the fraction are no digits of it. -/
def readUnsigned (negative : Bool) (text : List Char) : Option (JsonNumber × List Char) := do
  let (whole, rest) ← readWhole text
  let (fraction, rest) ← readFraction rest
  let (exponent, rest) ← readExponent rest
  let places := (fraction.reverse.dropWhile (· = '0')).reverse
  let (coefficient, scale) := abridge (whole ++ places) (exponent.getD 0 - places.length)
  return (⟨negative, fraction.isEmpty && exponent.isNone, coefficient, scale⟩, rest)

def readNumber : List Char → Option (JsonNumber × List Char)
  | '-' :: rest => readUnsigned true rest
  | rest => readUnsigned false rest

def escape? (c : Char) : Option Char :=
  if c = '"' then some '"'
  else if c = '\\' then some '\\'
  else if c = '/' then some '/'
  else if c = 'b' then some '\x08'
  else if c = 'f' then some '\x0c'
  else if c = 'n' then some '\n'
  else if c = 'r' then some '\r'
  else if c = 't' then some '\t'
  else none

def codeUnit? (a b c d : Char) : Option Nat := do
  let a ← Hexadecimal.digitValue? a
  let b ← Hexadecimal.digitValue? b
  let c ← Hexadecimal.digitValue? c
  let d ← Hexadecimal.digitValue? d
  return ((a * 16 + b) * 16 + c) * 16 + d

/-- The rest of a string, up to and with the quote that closes it. -/
def readUnits : List Char → Option (List JsonUnit × List Char)
  | [] => none
  | '"' :: rest => some ([], rest)
  | '\\' :: 'u' :: a :: b :: c :: d :: rest => do
    let code ← codeUnit? a b c d
    let (units, rest) ← readUnits rest
    return (.escaped code :: units, rest)
  | '\\' :: c :: rest => do
    let c ← escape? c
    let (units, rest) ← readUnits rest
    return (.plain c :: units, rest)
  | c :: rest =>
    if c = '\\' ∨ c.toNat < 0x20 then none
    else (readUnits rest).map fun (units, rest) => (.plain c :: units, rest)

def readString : List Char → Option (List JsonUnit × List Char)
  | '"' :: rest => readUnits rest
  | _ => none

mutual

def readValue : Nat → List Char → Option (Json × List Char)
  | 0, _ => none
  | fuel + 1, text =>
    match skipBlank text with
    | '\x7b' :: rest =>
      match skipBlank rest with
      | '\x7d' :: rest => some (.object [], rest)
      | rest => (readMembers fuel rest).map fun (members, rest) => (.object members, rest)
    | '[' :: rest =>
      match skipBlank rest with
      | ']' :: rest => some (.array [], rest)
      | rest => (readItems fuel rest).map fun (items, rest) => (.array items, rest)
    | '"' :: rest => (readUnits rest).map fun (units, rest) => (.text units, rest)
    | 'n' :: 'u' :: 'l' :: 'l' :: rest => some (.null, rest)
    | 't' :: 'r' :: 'u' :: 'e' :: rest => some (.bool true, rest)
    | 'f' :: 'a' :: 'l' :: 's' :: 'e' :: rest => some (.bool false, rest)
    | rest => (readNumber rest).map fun (number, rest) => (.number number, rest)

/-- The items of an array, up to and with its closing bracket. -/
def readItems : Nat → List Char → Option (List Json × List Char)
  | 0, _ => none
  | fuel + 1, text => do
    let (item, rest) ← readValue fuel text
    match skipBlank rest with
    | ',' :: rest => (readItems fuel rest).map fun (items, rest) => (item :: items, rest)
    | ']' :: rest => some ([item], rest)
    | _ => none

def readMembers : Nat → List Char → Option (List (List JsonUnit × Json) × List Char)
  | 0, _ => none
  | fuel + 1, text => do
    let (name, rest) ← readString (skipBlank text)
    match skipBlank rest with
    | ':' :: rest =>
      let (value, rest) ← readValue fuel rest
      match skipBlank rest with
      | ',' :: rest =>
        (readMembers fuel rest).map fun (members, rest) => ((name, value) :: members, rest)
      | '\x7d' :: rest => some ([(name, value)], rest)
      | _ => none
    | _ => none

end

def fuelFor (text : List Char) : Nat := 2 * text.length + 2

def read? (text : List Char) : Option Json := do
  let (value, rest) ← readValue (fuelFor text) text
  if (skipBlank rest).isEmpty then some value else none

end FieldLink.JsonReader
