/-!
# Octet strings and the big-endian words inside them

An octet string is a plain list, so that every format below is an equation between lists.
-/

namespace FieldLink

-- A power of numbers is the one of the core library, whatever other instances are in scope.
attribute [instance(2000), default_instance 20000] instPowNat

abbrev Octets := List UInt8

namespace Octets

/-- The last `width` octets of `n`, most significant first. -/
def bigEndian : Nat → Nat → Octets
  | 0, _ => []
  | width + 1, n => bigEndian width (n / 256) ++ [UInt8.ofNat n]

def toNat (octets : Octets) : Nat :=
  octets.foldl (fun n octet => n * 256 + octet.toNat) 0

@[simp] theorem length_bigEndian (width n : Nat) : (bigEndian width n).length = width := by
  induction width generalizing n with
  | zero => rfl
  | succ width ih => simp [bigEndian, ih]

theorem toNat_append_singleton (octets : Octets) (octet : UInt8) :
    toNat (octets ++ [octet]) = toNat octets * 256 + octet.toNat := by
  simp [toNat]

theorem toNat_bigEndian (width n : Nat) (h : n < 256 ^ width) : toNat (bigEndian width n) = n := by
  induction width generalizing n with
  | zero => simp [bigEndian, toNat]; omega
  | succ width ih =>
    have hdiv : n / 256 < 256 ^ width := by
      apply Nat.div_lt_of_lt_mul
      rw [Nat.mul_comm, ← Nat.pow_succ]
      exact h
    rw [bigEndian, toNat_append_singleton, ih _ hdiv, UInt8.toNat_ofNat']
    omega

/-- Octet by octet exclusive or, as long as the shorter of the two strings. -/
def xor (a b : Octets) : Octets := a.zipWith (· ^^^ ·) b

def overwrite (buffer : Octets) (start : Nat) (octets : Octets) : Octets :=
  buffer.take start ++ octets ++ buffer.drop (start + octets.length)

def slice (octets : Octets) (start stop : Nat) : Octets := (octets.take stop).drop start

/-- Splits off the first `n` octets when there are so many. -/
def split? (n : Nat) (octets : Octets) : Option (Octets × Octets) :=
  if n ≤ octets.length then some (octets.take n, octets.drop n) else none

theorem append_of_split? {n : Nat} {octets front rest : Octets}
    (h : split? n octets = some (front, rest)) : octets = front ++ rest ∧ front.length = n := by
  unfold split? at h
  split at h
  · next hn =>
    cases h
    exact ⟨(List.take_append_drop n octets).symm, by simp [hn]⟩
  · cases h

@[simp] theorem split?_append (front rest : Octets) :
    split? front.length (front ++ rest) = some (front, rest) := by
  simp [split?]

end Octets
end FieldLink
