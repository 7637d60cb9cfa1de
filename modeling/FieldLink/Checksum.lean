import FieldLink.Octets

/-!
# The reflected CRC-32 of IEEE 802.3

Register and result are complemented, and every octet is divided out bit by bit, least significant first. The
register is a bit vector, so that a step is a linear map followed by a constant.
-/

namespace FieldLink.Checksum

def generator : BitVec 32 := 0xEDB88320

/-- One bit of division: the register moves down and the generator is taken off where a one fell out. -/
def shift (register : BitVec 32) : BitVec 32 :=
  if register.getLsbD 0 then (register >>> 1) ^^^ generator else register >>> 1

/-- The register after `n` bits. -/
def shifts : Nat → BitVec 32 → BitVec 32
  | 0, register => register
  | n + 1, register => shifts n (shift register)

def feed (register : BitVec 32) (octet : UInt8) : BitVec 32 :=
  shifts 8 (register ^^^ octet.toBitVec.setWidth 32)

def run (register : BitVec 32) (octets : Octets) : BitVec 32 := octets.foldl feed register

def crc32 (octets : Octets) : UInt32 := ⟨~~~run (BitVec.allOnes 32) octets⟩

/-- Whether `expected` is the CRC-32 of the octets. -/
def verify (expected : UInt32) (octets : Octets) : Bool := crc32 octets == expected

@[simp] theorem run_append (register : BitVec 32) (a b : Octets) :
    run register (a ++ b) = run (run register a) b := by
  simp [run]

end FieldLink.Checksum
