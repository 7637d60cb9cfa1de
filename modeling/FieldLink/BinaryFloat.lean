/-!
# Binary floating-point formats

The non-negative finite values of a format, in increasing order, are numbered from zero; a finite value is a
sign and such a number, which is also its bit pattern without the sign. Every finite value is a multiple of the
least positive one, so that rounding is a division of natural numbers.
-/

namespace FieldLink

-- A power of numbers is the one of the core library, whatever other instances are in scope.
attribute [instance(2000), default_instance 20000] instPowNat

structure FloatFormat where
  fractionBits : Nat
  exponentBits : Nat
deriving DecidableEq

namespace FloatFormat

def half : FloatFormat := ⟨10, 5⟩
def single : FloatFormat := ⟨23, 8⟩
def double : FloatFormat := ⟨52, 11⟩

/-- The bit pattern of infinity: one more than that of the largest finite value. -/
def infinity (f : FloatFormat) : Nat := (2 ^ f.exponentBits - 1) * 2 ^ f.fractionBits

def signWeight (f : FloatFormat) : Nat := 2 ^ (f.exponentBits + f.fractionBits)

/-- The least positive value is `2 ^ -scale`. -/
def scale (f : FloatFormat) : Nat := 2 ^ (f.exponentBits - 1) + f.fractionBits - 2

/-- The finite value numbered `index`, in multiples of the least positive one. -/
def units (f : FloatFormat) (index : Nat) : Nat :=
  let exponent := index / 2 ^ f.fractionBits
  if exponent = 0 then index
  else (2 ^ f.fractionBits + index % 2 ^ f.fractionBits) * 2 ^ (exponent - 1)

end FloatFormat

/-- The integer nearest to `n / d`, the even one of two equally near. -/
def nearestInteger (n d : Nat) : Nat :=
  let low := n / d
  let twice := 2 * (n % d)
  if twice < d ∨ twice = d ∧ low % 2 = 0 then low else low + 1

/-- The number of the finite value nearest to `n / d`, the even one of two equally near; from
`infinity` on when the quotient is out of range. -/
def FloatFormat.nearest (f : FloatFormat) (n d : Nat) : Nat :=
  let n := n * 2 ^ f.scale
  let drop := Nat.log2 (n / d) - f.fractionBits
  drop * 2 ^ f.fractionBits + nearestInteger n (d * 2 ^ drop)

structure FiniteFloat (f : FloatFormat) where
  negative : Bool
  index : Nat
  index_lt : index < f.infinity
deriving DecidableEq

/-- A value of a format; the bits by which one invalid value differs from another are not kept. -/
inductive FloatValue (f : FloatFormat) where
  | finite (x : FiniteFloat f)
  | infinite (negative : Bool)
  | invalid
deriving DecidableEq

namespace FloatValue

variable {f g : FloatFormat}

def ofIndex (f : FloatFormat) (negative : Bool) (index : Nat) : FloatValue f :=
  if h : index < f.infinity then finite ⟨negative, index, h⟩
  else if index = f.infinity then infinite negative
  else invalid

def ofBits (f : FloatFormat) (bits : Nat) : FloatValue f :=
  ofIndex f (f.signWeight ≤ bits) (bits % f.signWeight)

/-- The value nearest to a quotient; out of range it is infinite. -/
def round (f : FloatFormat) (negative : Bool) (n d : Nat) : FloatValue f :=
  ofIndex f negative (min (f.nearest n d) f.infinity)

def convert (g : FloatFormat) : FloatValue f → FloatValue g
  | finite x => round g x.negative (f.units x.index) (2 ^ f.scale)
  | infinite negative => infinite negative
  | invalid => invalid

def finite? : FloatValue f → Option (FiniteFloat f)
  | finite x => some x
  | _ => none

end FloatValue

namespace FiniteFloat

variable {f : FloatFormat}

def toBits (x : FiniteFloat f) : Nat := (if x.negative then f.signWeight else 0) + x.index

/-- The value of a narrower format that is equal to this one. -/
def exactly? (g : FloatFormat) (x : FiniteFloat f) : Option (FiniteFloat g) := do
  let y ← (FloatValue.convert g (.finite x)).finite?
  if FloatValue.convert f (.finite y) = .finite x then some y else none

end FiniteFloat

abbrev Single := FiniteFloat .single
abbrev Double := FiniteFloat .double

end FieldLink
