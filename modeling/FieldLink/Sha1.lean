import FieldLink.Blocks

/-! # SHA-1 (FIPS 180-4), which one-time codes are defined with -/

namespace FieldLink.Sha1

def rotate (x n : UInt32) : UInt32 := (x <<< n) ||| (x >>> (32 - n))

/-- The five working words. -/
structure State where
  a : UInt32
  b : UInt32
  c : UInt32
  d : UInt32
  e : UInt32

def initial : State := ⟨0x67452301, 0xefcdab89, 0x98badcfe, 0x10325476, 0xc3d2e1f0⟩

def schedule (block : List UInt32) : Array UInt32 :=
  (List.range 64).foldl (fun w i =>
    w.push (rotate (w.getD (i + 13) 0 ^^^ w.getD (i + 8) 0 ^^^ w.getD (i + 2) 0 ^^^ w.getD i 0) 1))
    block.toArray

/-- The function and the constant of a round, which change every twenty rounds. -/
def stage (s : State) (index : Nat) : UInt32 :=
  if index < 20 then ((s.b &&& s.c) ||| (~~~s.b &&& s.d)) + 0x5a827999
  else if index < 40 then (s.b ^^^ s.c ^^^ s.d) + 0x6ed9eba1
  else if index < 60 then ((s.b &&& s.c) ||| (s.b &&& s.d) ||| (s.c &&& s.d)) + 0x8f1bbcdc
  else (s.b ^^^ s.c ^^^ s.d) + 0xca62c1d6

def round (s : State) (word : UInt32 × Nat) : State :=
  ⟨rotate s.a 5 + stage s word.2 + s.e + word.1, s.a, rotate s.b 30, s.c, s.d⟩

def compress (s : State) (block : Octets) : State :=
  let t := (schedule block.words).toList.zipIdx.foldl round s
  ⟨s.a + t.a, s.b + t.b, s.c + t.c, s.d + t.d, s.e + t.e⟩

def digest (octets : Octets) : Octets :=
  let s := (Octets.blocks 64 octets.padDigest).foldl compress initial
  [s.a, s.b, s.c, s.d, s.e].flatMap fun word => Octets.bigEndian 4 word.toNat

theorem length_digest (octets : Octets) : (digest octets).length = 20 := by
  simp [digest]

end FieldLink.Sha1
