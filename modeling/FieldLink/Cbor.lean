import FieldLink.BinaryFloat
import FieldLink.Utf8

/-!
# CBOR items (RFC 8949) and their shortest octets

Definite lengths, heads with no needless octet, and each float in the narrowest format that has its value.
-/

namespace FieldLink

/-- A CBOR item. An integer lies between `-2 ^ 64` and `2 ^ 64 - 1`. -/
inductive Cbor where
  | null
  | bool (value : Bool)
  | integer (value : Int)
  | float (value : FloatValue .double)
  | text (value : String)
  | bytes (value : Octets)
  | array (items : List Cbor)
  | map (entries : List (Cbor × Cbor))
  | tagged (tag : Nat) (item : Cbor)

namespace Cbor

/-- A head: three bits of major type, and an argument in as few octets as hold it. -/
def head (major n : Nat) : Octets :=
  let first (info : Nat) : UInt8 := UInt8.ofNat (32 * major + info)
  if n < 24 then [first n]
  else if n < 0x100 then first 24 :: Octets.bigEndian 1 n
  else if n < 0x10000 then first 25 :: Octets.bigEndian 2 n
  else if n < 0x100000000 then first 26 :: Octets.bigEndian 4 n
  else first 27 :: Octets.bigEndian 8 n

def writeInteger (n : Int) : Octets := if n < 0 then head 1 (-1 - n).toNat else head 0 n.toNat

def writeHalf (bits : Nat) : Octets := 0xF9 :: Octets.bigEndian 2 bits
def writeSingle (bits : Nat) : Octets := 0xFA :: Octets.bigEndian 4 bits
def writeDouble (bits : Nat) : Octets := 0xFB :: Octets.bigEndian 8 bits

def writeFinite (x : Double) : Octets :=
  (x.exactly? .half).elim
    ((x.exactly? .single).elim (writeDouble x.toBits) fun s => writeSingle s.toBits)
    fun h => writeHalf h.toBits

def writeFloat : FloatValue .double → Octets
  | .finite x => writeFinite x
  | .infinite negative => writeHalf (if negative then 0xFC00 else 0x7C00)
  | .invalid => writeHalf 0x7E00

def writeText (s : String) : Octets :=
  let octets := Utf8.encode s.toList
  head 3 octets.length ++ octets

mutual

def write : Cbor → Octets
  | .null => [0xF6]
  | .bool false => [0xF4]
  | .bool true => [0xF5]
  | .integer n => writeInteger n
  | .float x => writeFloat x
  | .text s => writeText s
  | .bytes octets => head 2 octets.length ++ octets
  | .array items => head 4 items.length ++ writeItems items
  | .map entries => head 5 entries.length ++ writeEntries entries
  | .tagged tag item => head 6 tag ++ write item

def writeItems : List Cbor → Octets
  | [] => []
  | item :: rest => write item ++ writeItems rest

def writeEntries : List (Cbor × Cbor) → Octets
  | [] => []
  | (key, value) :: rest => write key ++ (write value ++ writeEntries rest)

end

/-- Whether an item is a map, with no tag around it. -/
def isMap : Cbor → Bool
  | .map _ => true
  | _ => false

end Cbor
end FieldLink
