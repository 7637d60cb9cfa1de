import FieldLink.Blocks

/-!
# AES-256 encryption (FIPS 197)

A state is four columns of four octets; every step of a round is a permutation of states, whatever the round
keys.
-/

namespace FieldLink.Aes

structure Word where
  b0 : UInt8
  b1 : UInt8
  b2 : UInt8
  b3 : UInt8
deriving DecidableEq

structure State where
  c0 : Word
  c1 : Word
  c2 : Word
  c3 : Word
deriving DecidableEq

/-- Inverse in the field of 256 elements followed by an affine map. -/
def substitutionTable : Array UInt8 :=
  #[0x63, 0x7c, 0x77, 0x7b, 0xf2, 0x6b, 0x6f, 0xc5, 0x30, 0x01, 0x67, 0x2b, 0xfe, 0xd7, 0xab, 0x76,
    0xca, 0x82, 0xc9, 0x7d, 0xfa, 0x59, 0x47, 0xf0, 0xad, 0xd4, 0xa2, 0xaf, 0x9c, 0xa4, 0x72, 0xc0,
    0xb7, 0xfd, 0x93, 0x26, 0x36, 0x3f, 0xf7, 0xcc, 0x34, 0xa5, 0xe5, 0xf1, 0x71, 0xd8, 0x31, 0x15,
    0x04, 0xc7, 0x23, 0xc3, 0x18, 0x96, 0x05, 0x9a, 0x07, 0x12, 0x80, 0xe2, 0xeb, 0x27, 0xb2, 0x75,
    0x09, 0x83, 0x2c, 0x1a, 0x1b, 0x6e, 0x5a, 0xa0, 0x52, 0x3b, 0xd6, 0xb3, 0x29, 0xe3, 0x2f, 0x84,
    0x53, 0xd1, 0x00, 0xed, 0x20, 0xfc, 0xb1, 0x5b, 0x6a, 0xcb, 0xbe, 0x39, 0x4a, 0x4c, 0x58, 0xcf,
    0xd0, 0xef, 0xaa, 0xfb, 0x43, 0x4d, 0x33, 0x85, 0x45, 0xf9, 0x02, 0x7f, 0x50, 0x3c, 0x9f, 0xa8,
    0x51, 0xa3, 0x40, 0x8f, 0x92, 0x9d, 0x38, 0xf5, 0xbc, 0xb6, 0xda, 0x21, 0x10, 0xff, 0xf3, 0xd2,
    0xcd, 0x0c, 0x13, 0xec, 0x5f, 0x97, 0x44, 0x17, 0xc4, 0xa7, 0x7e, 0x3d, 0x64, 0x5d, 0x19, 0x73,
    0x60, 0x81, 0x4f, 0xdc, 0x22, 0x2a, 0x90, 0x88, 0x46, 0xee, 0xb8, 0x14, 0xde, 0x5e, 0x0b, 0xdb,
    0xe0, 0x32, 0x3a, 0x0a, 0x49, 0x06, 0x24, 0x5c, 0xc2, 0xd3, 0xac, 0x62, 0x91, 0x95, 0xe4, 0x79,
    0xe7, 0xc8, 0x37, 0x6d, 0x8d, 0xd5, 0x4e, 0xa9, 0x6c, 0x56, 0xf4, 0xea, 0x65, 0x7a, 0xae, 0x08,
    0xba, 0x78, 0x25, 0x2e, 0x1c, 0xa6, 0xb4, 0xc6, 0xe8, 0xdd, 0x74, 0x1f, 0x4b, 0xbd, 0x8b, 0x8a,
    0x70, 0x3e, 0xb5, 0x66, 0x48, 0x03, 0xf6, 0x0e, 0x61, 0x35, 0x57, 0xb9, 0x86, 0xc1, 0x1d, 0x9e,
    0xe1, 0xf8, 0x98, 0x11, 0x69, 0xd9, 0x8e, 0x94, 0x9b, 0x1e, 0x87, 0xe9, 0xce, 0x55, 0x28, 0xdf,
    0x8c, 0xa1, 0x89, 0x0d, 0xbf, 0xe6, 0x42, 0x68, 0x41, 0x99, 0x2d, 0x0f, 0xb0, 0x54, 0xbb, 0x16]

def substitute (b : UInt8) : UInt8 := substitutionTable.getD b.toNat 0

namespace Word

def xor (a b : Word) : Word := ⟨a.b0 ^^^ b.b0, a.b1 ^^^ b.b1, a.b2 ^^^ b.b2, a.b3 ^^^ b.b3⟩

def map (f : UInt8 → UInt8) (w : Word) : Word := ⟨f w.b0, f w.b1, f w.b2, f w.b3⟩

def rotate (w : Word) : Word := ⟨w.b1, w.b2, w.b3, w.b0⟩

/-- The word at the front of an octet string, zero where octets are missing. -/
def ofOctets (octets : Octets) : Word :=
  ⟨octets.getD 0 0, octets.getD 1 0, octets.getD 2 0, octets.getD 3 0⟩

def toOctets (w : Word) : Octets := [w.b0, w.b1, w.b2, w.b3]

def double (b : UInt8) : UInt8 := if b &&& 0x80 = 0 then b <<< 1 else (b <<< 1) ^^^ 0x1b

/-- The product with the fixed polynomial `3 x^3 + x^2 + x + 2`. -/
def mix (w : Word) : Word :=
  let all := w.b0 ^^^ w.b1 ^^^ w.b2 ^^^ w.b3
  ⟨w.b0 ^^^ all ^^^ double (w.b0 ^^^ w.b1), w.b1 ^^^ all ^^^ double (w.b1 ^^^ w.b2),
    w.b2 ^^^ all ^^^ double (w.b2 ^^^ w.b3), w.b3 ^^^ all ^^^ double (w.b3 ^^^ w.b0)⟩

end Word

namespace State

def xor (s t : State) : State := ⟨s.c0.xor t.c0, s.c1.xor t.c1, s.c2.xor t.c2, s.c3.xor t.c3⟩

def map (f : Word → Word) (s : State) : State := ⟨f s.c0, f s.c1, f s.c2, f s.c3⟩

/-- Row `r` moves `r` columns to the left. -/
def shiftRows (s : State) : State :=
  ⟨⟨s.c0.b0, s.c1.b1, s.c2.b2, s.c3.b3⟩, ⟨s.c1.b0, s.c2.b1, s.c3.b2, s.c0.b3⟩,
    ⟨s.c2.b0, s.c3.b1, s.c0.b2, s.c1.b3⟩, ⟨s.c3.b0, s.c0.b1, s.c1.b2, s.c2.b3⟩⟩

def ofOctets (octets : Octets) : State :=
  ⟨.ofOctets octets, .ofOctets (octets.drop 4), .ofOctets (octets.drop 8),
    .ofOctets (octets.drop 12)⟩

def toOctets (s : State) : Octets :=
  s.c0.toOctets ++ s.c1.toOctets ++ s.c2.toOctets ++ s.c3.toOctets

def scramble (s : State) : State := (s.map (Word.map substitute)).shiftRows

end State

/-- The word after `w` words of the expanded key, of which every eighth is rotated and marked. -/
def nextKeyWord (w : Array Word) (mark : UInt8) : Word :=
  let last := w.getD (w.size - 1) ⟨0, 0, 0, 0⟩
  let base := w.getD (w.size - 8) ⟨0, 0, 0, 0⟩
  if w.size % 8 = 0 then base.xor (Word.xor ⟨mark, 0, 0, 0⟩ (last.rotate.map substitute))
  else if w.size % 8 = 4 then base.xor (last.map substitute)
  else base.xor last

def expandKey (key : Octets) : Array Word :=
  let start := ((Octets.blocks 4 key).map Word.ofOctets).toArray
  [0x01, 0x02, 0x04, 0x08, 0x10, 0x20, 0x40].foldl (fun w mark =>
    (List.range 8).foldl (fun w _ => w.push (nextKeyWord w mark)) w) start

def roundKeys (key : Octets) : List State :=
  let w := expandKey key
  let word (i : Nat) : Word := w.getD i ⟨0, 0, 0, 0⟩
  (List.range 15).map fun r => ⟨word (4 * r), word (4 * r + 1), word (4 * r + 2), word (4 * r + 3)⟩

/-- One round for each key; the last one does not mix. -/
def rounds : List State → State → State
  | [], s => s
  | [key], s => s.scramble.xor key
  | key :: keys, s => rounds keys ((s.scramble.map Word.mix).xor key)

def encryptState : List State → State → State
  | [], s => s
  | key :: keys, s => rounds keys (s.xor key)

def encrypt (key : Octets) : Octets → Octets :=
  let keys := roundKeys key
  fun block => (encryptState keys (.ofOctets block)).toOctets

@[simp] theorem length_encrypt (key block : Octets) : (encrypt key block).length = 16 := rfl

end FieldLink.Aes
