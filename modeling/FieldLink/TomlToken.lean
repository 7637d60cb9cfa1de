import FieldLink.Decimal
import FieldLink.Hexadecimal
import FieldLink.Toml

/-!
# The TOML values that are written without quotes or brackets

Truth values, integers in four bases, floats, dates and times. Such a value is one run of letters, digits and a
few signs, but for a date and a time with a blank between them.
-/

namespace FieldLink.TomlToken

def isDigit (c : Char) : Bool := '0' ≤ c ∧ c ≤ '9'

def digit? (base : Nat) (c : Char) : Option Nat :=
  match Hexadecimal.digitValue? c with
  | some n => if n < base then some n else none
  | none => none

/-- Whether a character may stand in a value without quotes. -/
def isTokenChar (c : Char) : Bool :=
  c.isAlphanum ∨ c = '+' ∨ c = '-' ∨ c = '.' ∨ c = '_' ∨ c = ':'

/-- The digits of a number. An underscore may stand between two digits. -/
def digits? (base : Nat) : List Char → Option (List Nat)
  | [] => none
  | [c] => (digit? base c).map ([·])
  | c :: '_' :: rest => do
    let d ← digit? base c
    let ds ← digits? base rest
    return d :: ds
  | c :: rest => do
    let d ← digit? base c
    let ds ← digits? base rest
    return d :: ds

def value (base : Nat) (digits : List Nat) : Nat := digits.foldl (fun n d => n * base + d) 0

/-- Whether digits may stand before the point: no zero stands in front of others. -/
def isWhole (digits : List Nat) : Bool := digits.head? ≠ some 0 ∨ digits.length = 1

def sign : List Char → Bool × List Char
  | '-' :: rest => (true, rest)
  | '+' :: rest => (false, rest)
  | rest => (false, rest)

def bounded? (n : Int) : Option Toml := if -2 ^ 63 ≤ n ∧ n < 2 ^ 63 then some (.integer n) else none

/-- An integer; one in another base than ten has no sign. -/
def integer? (token : List Char) : Option Toml := do
  match token with
  | '0' :: 'x' :: rest => bounded? (value 16 (← digits? 16 rest))
  | '0' :: 'o' :: rest => bounded? (value 8 (← digits? 8 rest))
  | '0' :: 'b' :: rest => bounded? (value 2 (← digits? 2 rest))
  | _ =>
    let (negative, rest) := sign token
    let digits ← digits? 10 rest
    if isWhole digits then bounded? (if negative then -(value 10 digits) else value 10 digits) else none

def isExponentMark (c : Char) : Bool := c = 'e' ∨ c = 'E'

def exponent? : List Char → Option Int
  | [] => some 0
  | _ :: rest => do
    let (negative, rest) := sign rest
    let n : Int := value 10 (← digits? 10 rest)
    return if negative then -n else n

def fraction? : List Char → Option (List Nat)
  | '.' :: rest => digits? 10 rest
  | [] => some []
  | _ => none

/-- A float with a fraction, an exponent or both. A positive one must not be too large. -/
def decimalFloat? (token : List Char) : Option Toml := do
  let (negative, rest) := sign token
  let mantissa := rest.takeWhile (!isExponentMark ·)
  let whole ← digits? 10 (mantissa.takeWhile (· ≠ '.'))
  let fraction ← fraction? (mantissa.dropWhile (· ≠ '.'))
  let mark := rest.dropWhile (!isExponentMark ·)
  let exponent ← exponent? mark
  let number : Decimal := ⟨value 10 (whole ++ fraction), exponent - fraction.length⟩
  if isWhole whole ∧ (fraction ≠ [] ∨ mark ≠ []) ∧
      Decimal.round .double negative number ≠ .infinite false then
    some .float
  else none

def isSpecial (token : List Char) : Bool :=
  let rest := (sign token).2
  rest = ['i', 'n', 'f'] ∨ rest = ['n', 'a', 'n']

def two? (a b : Char) : Option Nat :=
  if isDigit a ∧ isDigit b then some (value 10 [a.toNat - 48, b.toNat - 48]) else none

def between (low : Nat) (a b : Char) (high : Nat) : Bool :=
  (two? a b).any fun n => low ≤ n ∧ n ≤ high

def isLeap (year : Nat) : Bool := year % 4 = 0 ∧ (year % 100 ≠ 0 ∨ year % 400 = 0)

def daysIn (year month : Nat) : Nat :=
  if month = 2 then if isLeap year then 29 else 28
  else if month = 4 ∨ month = 6 ∨ month = 9 ∨ month = 11 then 30
  else 31

def afterDate? : List Char → Option (List Char)
  | a :: b :: c :: d :: '-' :: m :: n :: '-' :: x :: y :: rest => do
    let year := (← two? a b) * 100 + (← two? c d)
    let month ← two? m n
    if 1 ≤ month ∧ month ≤ 12 ∧ between 1 x y (daysIn year month) then some rest else none
  | _ => none

/-- What follows a time. A minute may have a leap second, and a second any number of places. -/
def afterTime? : List Char → Option (List Char)
  | a :: b :: ':' :: c :: d :: ':' :: e :: f :: rest =>
    if between 0 a b 23 ∧ between 0 c d 59 ∧ between 0 e f 60 then
      match rest with
      | '.' :: more => if more.head?.any isDigit then some (more.dropWhile isDigit) else none
      | rest => some rest
    else none
  | _ => none

def isOffset : List Char → Bool
  | [] => true
  | [c] => c = 'Z' ∨ c = 'z'
  | [s, a, b, ':', c, d] => (s = '+' ∨ s = '-') ∧ between 0 a b 23 ∧ between 0 c d 59
  | _ => false

def isTimeOfDate (token : List Char) : Bool := (afterTime? token).any isOffset

/-- A date with a time or without, or a time alone. -/
def isTime (token : List Char) : Bool :=
  match afterDate? token with
  | some [] => true
  | some (c :: rest) => (c = 'T' ∨ c = 't') ∧ isTimeOfDate rest
  | none => afterTime? token = some []

def isDate (token : List Char) : Bool := afterDate? token = some []

def value? (token : List Char) : Option Toml :=
  if token = ['t', 'r', 'u', 'e'] then some (.bool true)
  else if token = ['f', 'a', 'l', 's', 'e'] then some (.bool false)
  else if isSpecial token then some .float
  else if isTime token then some .time
  else (integer? token).or (decimalFloat? token)

def read? (text : List Char) : Option (Toml × List Char) :=
  let token := text.takeWhile isTokenChar
  let rest := text.dropWhile isTokenChar
  match isDate token, rest with
  | true, ' ' :: c :: more =>
    if isDigit c then
      if isTimeOfDate ((c :: more).takeWhile isTokenChar) then
        some (.time, (c :: more).dropWhile isTokenChar)
      else none
    else some (.time, rest)
  | _, _ => (value? token).map fun v => (v, rest)

end FieldLink.TomlToken
