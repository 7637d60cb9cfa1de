import FieldLink.Octets

/-!
# Blocks of octets

Octet strings cut into blocks, and the padding of the iterated digests.
-/

namespace FieldLink.Octets

def blocks (size : Nat) (octets : Octets) : List Octets :=
  if octets = [] ∨ size = 0 then []
  else octets.take size :: blocks size (octets.drop size)
termination_by octets.length
decreasing_by
  rename_i h
  have : octets.length ≠ 0 := fun hl => h (Or.inl (List.length_eq_zero_iff.1 hl))
  simp only [List.length_drop]
  omega

/-- Pads with a one bit, zeros and the length in bits, up to a multiple of 64 octets. -/
def padDigest (octets : Octets) : Octets :=
  octets ++ 0x80 :: List.replicate ((119 - octets.length % 64) % 64) 0 ++
    bigEndian 8 (8 * octets.length)

def words (octets : Octets) : List UInt32 := (blocks 4 octets).map fun word => UInt32.ofNat word.toNat

end FieldLink.Octets
