import FieldLink.BinaryFloat

/-!
# Decimal numbers and binary floats

A decimal is read as the nearest float; a float is written with the fewest digits that read back, and among
those with the digits nearest to its value.
-/

namespace FieldLink

structure Decimal where
  coefficient : Nat
  exponent : Int
deriving DecidableEq

/-- How many decimal digits a natural number has; zero has none. -/
def digitCount (n : Nat) : Nat :=
  if h : n = 0 then 0 else digitCount (n / 10) + 1
termination_by n
decreasing_by omega

namespace Decimal

def numerator (d : Decimal) : Nat := d.coefficient * 10 ^ d.exponent.toNat

def denominator (d : Decimal) : Nat := 10 ^ (-d.exponent).toNat

/-- The float nearest to a decimal with a sign. A decimal far outside the range of the format is
settled by its number of digits alone. -/
def round (f : FloatFormat) (negative : Bool) (d : Decimal) : FloatValue f :=
  let top : Int := digitCount d.coefficient + d.exponent
  if d.coefficient = 0 ∨ top < -(f.scale : Int) then .ofIndex f negative 0
  else if (2 ^ (f.exponentBits - 1) : Int) < top then .infinite negative
  else .round f negative d.numerator d.denominator

def strip (d : Decimal) : Decimal :=
  if h : d.coefficient ≠ 0 ∧ d.coefficient % 10 = 0 then strip ⟨d.coefficient / 10, d.exponent + 1⟩
  else d
termination_by d.coefficient
decreasing_by omega

end Decimal

/-- Which of two equally near decimals stands for a float. -/
inductive TieRule where
  | toEven
  | upward
deriving DecidableEq

def leadingExponent (n d : Nat) : Int :=
  if d ≤ n then digitCount (n / d) - 1 else -(digitCount ((d - 1) / n) : Int)

/-- The two multiples of `10 ^ e` around `n / d`, the nearer one first. -/
def neighbours (tie : TieRule) (n d : Nat) (e : Int) : List Decimal :=
  let n := n * 10 ^ (-e).toNat
  let d := d * 10 ^ e.toNat
  let low := n / d
  let twice := 2 * (n % d)
  let lowFirst := twice < d ∨ twice = d ∧ tie = .toEven ∧ low % 2 = 0
  if lowFirst then [⟨low, e⟩, ⟨low + 1, e⟩] else [⟨low + 1, e⟩, ⟨low, e⟩]

namespace FiniteFloat

variable {f : FloatFormat}

def exactDecimal (x : FiniteFloat f) : Decimal := ⟨f.units x.index * 5 ^ f.scale, -f.scale⟩

def shortest (tie : TieRule) (x : FiniteFloat f) : Decimal :=
  let n := f.units x.index
  let d := 2 ^ f.scale
  let readsBack (c : Decimal) : Bool := Decimal.round f x.negative c = .finite x
  let found := (List.range (f.fractionBits + 1)).findSome? fun (more : Nat) =>
    (neighbours tie n d (leadingExponent n d - more)).find? readsBack
  (found.getD x.exactDecimal).strip

end FiniteFloat

def decimalDigits (n : Nat) : List Char := Nat.toDigits 10 n

def Decimal.positional (d : Decimal) : List Char :=
  let digits := decimalDigits d.coefficient
  let point : Int := digits.length + d.exponent
  if 0 ≤ d.exponent then digits ++ List.replicate d.exponent.toNat '0'
  else if 0 < point then digits.take point.toNat ++ '.' :: digits.drop point.toNat
  else '0' :: '.' :: (List.replicate (-point).toNat '0' ++ digits)

/-- Digits with the point after the first one and a signed exponent. -/
def Decimal.scientific (d : Decimal) : List Char :=
  let digits := decimalDigits d.coefficient
  let e : Int := digits.length + d.exponent - 1
  let fraction := if digits.length = 1 then [] else '.' :: digits.drop 1
  digits.take 1 ++ fraction ++ 'e' :: (if e < 0 then '-' else '+') :: decimalDigits e.natAbs

def signText (negative : Bool) : List Char := if negative then ['-'] else []

namespace FiniteFloat

variable {f : FloatFormat}

/-- All digits in place, no exponent, and no point after a whole number. -/
def plainText (x : FiniteFloat f) : List Char :=
  signText x.negative ++ if x.index = 0 then ['0'] else (x.shortest .upward).positional

/-- Text of a document: positional from `10 ^ -5` up to `10 ^ 16`, with a digit after the point, and
with an exponent outside. -/
def documentText (x : FiniteFloat f) : List Char :=
  signText x.negative ++
    if x.index = 0 then ['0', '.', '0']
    else
      let d := x.shortest .toEven
      let e : Int := digitCount d.coefficient + d.exponent - 1
      if -5 ≤ e ∧ e < 16 then
        if 0 ≤ d.exponent then d.positional ++ ['.', '0'] else d.positional
      else d.scientific

end FiniteFloat

/-- Widens a single through its shortest decimal, so that its digits and not its bits are kept. -/
def shortestDecimal : FloatValue .single → FloatValue .double
  | .finite x => Decimal.round .double x.negative (x.shortest .upward)
  | .infinite negative => .infinite negative
  | .invalid => .invalid

end FieldLink
