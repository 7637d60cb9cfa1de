/-!
# Natural numbers as people and headers write them

Decimal digits, with any number of zeros and at most one plus sign in front.
-/

namespace FieldLink.NumberText

def digits? : Nat → List Char → Option Nat
  | n, [] => some n
  | n, c :: rest => if c.isDigit then digits? (n * 10 + (c.toNat - 48)) rest else none

def read? (bound : Nat) (text : List Char) : Option Nat :=
  let text := match text with
    | '+' :: rest => rest
    | text => text
  if text = [] then none
  else
    match digits? 0 text with
    | some n => if n < bound then some n else none
    | none => none

/-- A number below `bound` that may have a sign. Of the numbers with a minus sign only zero is natural. -/
def readSigned? (bound : Nat) : List Char → Option Nat
  | '-' :: digits => if read? 1 digits = some 0 ∧ digits.head? ≠ some '+' then some 0 else none
  | text => read? bound text

end FieldLink.NumberText
