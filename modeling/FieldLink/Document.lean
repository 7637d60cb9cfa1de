import FieldLink.BinaryFloat

/-!
# Documents

The one data model behind both wire formats. Members of an object keep the order in which their names first
came; a repeated name changes the value and not the place.
-/

namespace FieldLink

/-- An integer that fits 64 bits, with or without a sign. -/
structure Integer where
  val : Int
  lower : -2 ^ 63 ≤ val
  upper : val < 2 ^ 64
deriving DecidableEq

namespace Integer

def ofInt? (n : Int) : Option Integer :=
  if h : -2 ^ 63 ≤ n ∧ n < 2 ^ 64 then some ⟨n, h.1, h.2⟩ else none

def ofUInt64 (n : UInt64) : Integer :=
  ⟨n.toNat, by omega, by have := n.toNat_lt; omega⟩

@[simp] theorem ofInt?_val (n : Integer) : ofInt? n.val = some n := by
  simp only [ofInt?, dif_pos (And.intro n.lower n.upper)]

end Integer

inductive Document where
  | null
  | bool (value : Bool)
  | integer (value : Integer)
  | float (value : Double)
  | text (value : String)
  | array (items : List Document)
  | object (members : List (String × Document))

/-- The members after a name is given a value: in its old place, or at the end when it is new. -/
def setMember {α : Type} (name : String) (value : α) : List (String × α) → List (String × α)
  | [] => [(name, value)]
  | (other, old) :: rest =>
    if other = name then (other, value) :: rest else (other, old) :: setMember name value rest

/-- Members in which every name stands once, with its last value in its first place. -/
def mergeMembers {α : Type} (members : List (String × α)) : List (String × α) :=
  members.foldl (fun merged member => setMember member.1 member.2 merged) []

namespace Document

def ofUInt64 (n : UInt64) : Document := .integer (.ofUInt64 n)
def ofUInt32 (n : UInt32) : Document := .ofUInt64 n.toUInt64
def ofUInt16 (n : UInt16) : Document := .ofUInt64 n.toUInt64
def ofUInt8 (n : UInt8) : Document := .ofUInt64 n.toUInt64

/-- The natural number below `bound` that a document is. A float is none, whole or not. -/
def natural? (bound : Nat) : Document → Option Nat
  | .integer n => if 0 ≤ n.val ∧ n.val < bound then some n.val.toNat else none
  | _ => none

def uint64? (d : Document) : Option UInt64 := (d.natural? (2 ^ 64)).map .ofNat
def uint32? (d : Document) : Option UInt32 := (d.natural? (2 ^ 32)).map .ofNat
def uint16? (d : Document) : Option UInt16 := (d.natural? (2 ^ 16)).map .ofNat
def uint8? (d : Document) : Option UInt8 := (d.natural? (2 ^ 8)).map .ofNat

def text? : Document → Option String
  | .text s => some s
  | _ => none

def bool? : Document → Option Bool
  | .bool b => some b
  | _ => none

/-- A float, or nothing where it is not finite. -/
def ofFloat? (x : FloatValue .double) : Document :=
  match x with
  | .finite x => .float x
  | _ => .null

/-- The number that a document is, in the nearest value of a format. -/
def float? (f : FloatFormat) : Document → Option (FloatValue f)
  | .integer n => some (.round f (n.val < 0) n.val.natAbs 1)
  | .float x => some (.convert f (.finite x))
  | _ => none

theorem natural?_ofUInt64 {bound : Nat} {n : UInt64} (h : n.toNat < bound) :
    (ofUInt64 n).natural? bound = some n.toNat := by
  have hrange : 0 ≤ (n.toNat : Int) ∧ (n.toNat : Int) < bound := ⟨by omega, by omega⟩
  simp only [ofUInt64, Integer.ofUInt64, natural?, if_pos hrange, Int.toNat_natCast]

@[simp] theorem uint64?_ofUInt64 (n : UInt64) : (ofUInt64 n).uint64? = some n := by
  rw [uint64?, natural?_ofUInt64 n.toNat_lt, Option.map_some, UInt64.ofNat_toNat]

@[simp] theorem uint32?_ofUInt32 (n : UInt32) : (ofUInt32 n).uint32? = some n := by
  have hlt : n.toUInt64.toNat < 2 ^ 32 := by
    rw [UInt32.toNat_toUInt64]
    exact n.toNat_lt
  rw [ofUInt32, uint32?, natural?_ofUInt64 hlt, Option.map_some, UInt32.toNat_toUInt64, UInt32.ofNat_toNat]

end Document
end FieldLink
