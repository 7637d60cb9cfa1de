import FieldLink.CborReader
import FieldLink.Decimal
import FieldLink.Document

/-!
# Documents as CBOR

A float goes out as a single when it is the shortest decimal of one, and a single comes back as its shortest
decimal; so a reading such as 21.37 keeps its digits and its width.
-/

namespace FieldLink

inductive Unsupported where
  /-- The float equals a single whose shortest decimal is another number. -/
  | narrowing (x : Double)
  | integerRange (n : Int)
  | notFinite
  | keyNotText
  | byteString
deriving DecidableEq

/-- The single whose shortest decimal is `x`. -/
def asSingle (x : Double) : Option Single := do
  let narrow ← (FloatValue.convert .single (.finite x)).finite?
  if shortestDecimal (.finite narrow) = .finite x then some narrow else none

def floatToCbor (x : Double) : Except Unsupported Cbor :=
  (asSingle x).elim
    (if (x.exactly? .single).isSome then .error (.narrowing x) else .ok (.float (.finite x)))
    fun s => .ok (.float (.convert .double (.finite s)))

/-- A double, or the shortest decimal of the single that it is equal to. -/
def widened (x : Double) : FloatValue .double :=
  (x.exactly? .single).elim (.finite x) fun s => shortestDecimal (.finite s)

def finiteDocument : FloatValue .double → Except Unsupported Document
  | .finite x => .ok (.float x)
  | _ => .error .notFinite

def floatToDocument : FloatValue .double → Except Unsupported Document
  | .finite x => finiteDocument (widened x)
  | _ => .error .notFinite

namespace Document

mutual

def toCbor : Document → Except Unsupported Cbor
  | .null => .ok .null
  | .bool b => .ok (.bool b)
  | .integer n => .ok (.integer n.val)
  | .float x => floatToCbor x
  | .text s => .ok (.text s)
  | .array items => do
    let items ← itemsToCbor items
    return .array items
  | .object members => do
    let entries ← membersToCbor members
    return .map entries

def itemsToCbor : List Document → Except Unsupported (List Cbor)
  | [] => .ok []
  | item :: rest => do
    let item ← toCbor item
    let rest ← itemsToCbor rest
    return item :: rest

def membersToCbor : List (String × Document) → Except Unsupported (List (Cbor × Cbor))
  | [] => .ok []
  | (name, value) :: rest => do
    let value ← toCbor value
    let rest ← membersToCbor rest
    return (.text name, value) :: rest

end

def writeCbor (d : Document) : Except Unsupported Octets := do
  let item ← d.toCbor
  return item.write

end Document

namespace Cbor

mutual

/-- The document of a CBOR item. Tags are passed over. -/
def toDocument : Cbor → Except Unsupported Document
  | .null => .ok .null
  | .bool b => .ok (.bool b)
  | .integer n =>
    match Integer.ofInt? n with
    | some n => .ok (.integer n)
    | none => .error (.integerRange n)
  | .float x => floatToDocument x
  | .text s => .ok (.text s)
  | .bytes _ => .error .byteString
  | .tagged _ item => toDocument item
  | .array items => do
    let items ← itemsToDocuments items
    return .array items
  | .map entries => do
    let members ← entriesToMembers entries
    return .object (mergeMembers members)

def itemsToDocuments : List Cbor → Except Unsupported (List Document)
  | [] => .ok []
  | item :: rest => do
    let item ← toDocument item
    let rest ← itemsToDocuments rest
    return item :: rest

def entriesToMembers : List (Cbor × Cbor) → Except Unsupported (List (String × Document))
  | [] => .ok []
  | (key, value) :: rest => do
    let name ← match key with
      | .text name => .ok name
      | _ => .error .keyNotText
    let value ← toDocument value
    let rest ← entriesToMembers rest
    return (name, value) :: rest

end

end Cbor
end FieldLink
