/-!
# JSON texts

JSON texts as RFC 8259 has them, before any meaning is given to names and numbers: repeated names, halves of
surrogate pairs and numbers out of range are all still there.
-/

namespace FieldLink

/-- One element of a string: a character that stands for itself, or a code unit that was escaped. -/
inductive JsonUnit where
  | plain (c : Char)
  | escaped (code : Nat)
deriving DecidableEq

/-- A number as written, but for its length. Digits after the point count in the coefficient and lower the
exponent. -/
structure JsonNumber where
  negative : Bool
  whole : Bool
  coefficient : Nat
  exponent : Int
deriving DecidableEq

inductive Json where
  | null
  | bool (value : Bool)
  | number (value : JsonNumber)
  | text (units : List JsonUnit)
  | array (items : List Json)
  | object (members : List (List JsonUnit × Json))

namespace JsonUnit

def isHighSurrogate (code : Nat) : Bool := 0xD800 ≤ code ∧ code < 0xDC00
def isLowSurrogate (code : Nat) : Bool := 0xDC00 ≤ code ∧ code < 0xE000

/-- The characters that a string spells; a half of a surrogate pair without the other spells none. -/
def characters? : List JsonUnit → Option (List Char)
  | [] => some []
  | .plain c :: rest => (characters? rest).map (c :: ·)
  | .escaped code :: rest =>
    if isHighSurrogate code then
      match rest with
      | .escaped low :: rest =>
        if isLowSurrogate low then
          (characters? rest).map (Char.ofNat (0x10000 + (code - 0xD800) * 0x400 + (low - 0xDC00)) :: ·)
        else none
      | _ => none
    else if isLowSurrogate code then none
    else (characters? rest).map (Char.ofNat code :: ·)

def text? (units : List JsonUnit) : Option String := (characters? units).map String.ofList

end JsonUnit
end FieldLink
