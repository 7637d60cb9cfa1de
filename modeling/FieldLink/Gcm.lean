import FieldLink.Blocks

/-!
# Galois/counter mode

Galois/counter mode (NIST SP 800-38D) for any cipher of sixteen-octet blocks and initialisation vectors of
twelve octets: counter mode for secrecy, and a polynomial hash over header and ciphertext for the tag.
-/

namespace FieldLink.Gcm

/-- A block as an element of the field of `2 ^ 128` elements, zeros after the end of a short one. -/
def element (block : Octets) : BitVec 128 :=
  BitVec.ofNat 128 (Octets.toNat (block ++ List.replicate (16 - block.length) 0))

def blockOf (x : BitVec 128) : Octets := Octets.bigEndian 16 x.toNat

/-- Multiplication by the generator, whose powers stand for the bits from the most significant one on. -/
def double (x : BitVec 128) : BitVec 128 :=
  if x.getLsbD 0 then (x >>> 1) ^^^ 0xE1000000000000000000000000000000 else x >>> 1

/-- Adds the multiples of `y` that the bits of `x` call for, `bits` of them from the top. -/
def multiplyBits (x : BitVec 128) : Nat → BitVec 128 → BitVec 128 → BitVec 128
  | 0, _, sum => sum
  | bits + 1, y, sum => multiplyBits x bits (double y) (if x.getLsbD bits then sum ^^^ y else sum)

def multiply (x y : BitVec 128) : BitVec 128 := multiplyBits x 128 y 0

def hashBlocks (key : BitVec 128) (start : BitVec 128) (blocks : List Octets) : BitVec 128 :=
  blocks.foldl (fun sum block => multiply (sum ^^^ element block) key) start

def lengthBlock (header body : Octets) : Octets :=
  Octets.bigEndian 8 (8 * header.length) ++ Octets.bigEndian 8 (8 * body.length)

def hash (key : BitVec 128) (header body : Octets) : BitVec 128 :=
  hashBlocks key 0 (Octets.blocks 16 header ++ Octets.blocks 16 body ++ [lengthBlock header body])

def counterBlock (iv : Octets) (n : Nat) : Octets := iv ++ Octets.bigEndian 4 n

/-- As many keystream octets as `blocks` counter blocks give; the first counter belongs to the tag. -/
def keystream (cipher : Octets → Octets) (iv : Octets) (blocks : Nat) : Octets :=
  (List.range blocks).flatMap fun i => cipher (counterBlock iv (i + 2))

def crypt (cipher : Octets → Octets) (iv text : Octets) : Octets :=
  Octets.xor text (keystream cipher iv ((text.length + 15) / 16))

def tag (cipher : Octets → Octets) (iv header body : Octets) : Octets :=
  let key := element (cipher (List.replicate 16 0))
  Octets.xor (cipher (counterBlock iv 1)) (blockOf (hash key header body))

def maxLength : Nat := 2 ^ 36

def encrypt? (cipher : Octets → Octets) (iv header text : Octets) : Option (Octets × Octets) :=
  if maxLength < text.length then none
  else
    let body := crypt cipher iv text
    some (body, tag cipher iv header body)

/-- Decrypts a ciphertext in its place when its tag is right. One that is refused stays as it is; the
limit leaves room for a tag. -/
def decryptInPlace (cipher : Octets → Octets) (iv header body expected : Octets) : Bool × Octets :=
  if maxLength + 16 < body.length then (false, body)
  else if tag cipher iv header body = expected then (true, crypt cipher iv body)
  else (false, body)

end FieldLink.Gcm
