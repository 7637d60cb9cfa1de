import FieldLink.Cbor

/-!
# Reading CBOR items from octets

Any width of head, indefinite lengths, tags, and short big numbers. A step returns the item and the octets after
it.
-/

namespace FieldLink.CborReader

/-- The argument of a head, `none` where the length is left open. -/
structure Head where
  major : Nat
  info : Nat
  argument : Option Nat

/-- Reads a head. Three values of the additional information are reserved. -/
def readHead : Octets → Option (Head × Octets)
  | [] => none
  | octet :: rest =>
    let major := octet.toNat / 32
    let info := octet.toNat % 32
    let wide (width : Nat) : Option (Head × Octets) :=
      (Octets.split? width rest).map fun (front, rest) => (⟨major, info, some front.toNat⟩, rest)
    if info < 24 then some (⟨major, info, some info⟩, rest)
    else if info = 24 then wide 1
    else if info = 25 then wide 2
    else if info = 26 then wide 4
    else if info = 27 then wide 8
    else if info = 31 then some (⟨major, info, none⟩, rest)
    else none

/-- A simple value or a float. The undefined value reads as null. -/
def simple? (info n : Nat) : Option Cbor :=
  if info = 25 then some (.float (.convert .double (.ofBits .half n)))
  else if info = 26 then some (.float (.convert .double (.ofBits .single n)))
  else if info = 27 then some (.float (.ofBits .double n))
  else if n = 20 then some (.bool false)
  else if n = 21 then some (.bool true)
  else if n = 22 ∨ n = 23 then some .null
  else none

/-- The pieces of a string of open length. Strings of open length may stand inside one another; `inside`
counts those around this place. -/
def readPieces (major : Nat) : Nat → Nat → Octets → Option (List Octets × Octets)
  | 0, _, _ => none
  | fuel + 1, inside, octets => do
    let (head, rest) ← readHead octets
    match head.argument with
    | none =>
      if head.major = major then readPieces major fuel (inside + 1) rest
      else if head.major = 7 then
        match inside with
        | 0 => some ([], rest)
        | inside + 1 => readPieces major fuel inside rest
      else none
    | some n =>
      if head.major = major then
        let (piece, rest) ← Octets.split? n rest
        let (pieces, rest) ← readPieces major fuel inside rest
        return (piece :: pieces, rest)
      else none

def readString (fuel : Nat) (head : Head) (octets : Octets) : Option (List Octets × Octets) :=
  match head.argument with
  | some n => (Octets.split? n octets).map fun (piece, rest) => ([piece], rest)
  | none => readPieces head.major fuel 0 octets

/-- A text, each piece of which is UTF-8 by itself. -/
def textOf? (pieces : List Octets) : Option Cbor := do
  let parts ← pieces.mapM Utf8.decode?
  return .text (String.ofList parts.flatten)

/-- What a big number behind tag 2 or 3 stands for: an integer where it fits, else the tagged string. -/
def bigNumber? (negative : Bool) (octets : Octets) : Option Cbor :=
  let n := octets.toNat
  if negative ∧ 2 ^ 127 ≤ n then none
  else if n < 2 ^ 64 then some (.integer (if negative then -1 - n else n))
  else some (.tagged (if negative then 3 else 2) (.bytes (octets.dropWhile (· = 0))))

def readBigNumber (tag : Nat) (octets : Octets) : Option (Option (Octets × Octets)) :=
  if tag = 2 ∨ tag = 3 then
    match readHead octets with
    | some (⟨2, _, some n⟩, rest) => if n ≤ 16 then some (Octets.split? n rest) else none
    | _ => none
  else none

mutual

/-- An item with at most `depth` levels of arrays, maps and tags. -/
def readItem : Nat → Nat → Octets → Option (Cbor × Octets)
  | 0, _, _ => none
  | fuel + 1, depth, octets => do
    let (head, rest) ← readHead octets
    match head.major, head.argument, depth with
    | 0, some n, _ => some (.integer n, rest)
    | 1, some n, _ => some (.integer (-1 - n), rest)
    | 2, _, _ =>
      (readString fuel head rest).map fun (pieces, rest) => (.bytes pieces.flatten, rest)
    | 3, _, _ => do
      let (pieces, rest) ← readString fuel head rest
      let text ← textOf? pieces
      return (text, rest)
    | 4, some n, depth + 1 =>
      (readItems fuel depth n rest).map fun (items, rest) => (.array items, rest)
    | 4, none, depth + 1 =>
      (readOpenItems fuel depth rest).map fun (items, rest) => (.array items, rest)
    | 5, some n, depth + 1 =>
      (readEntries fuel depth n rest).map fun (entries, rest) => (.map entries, rest)
    | 5, none, depth + 1 =>
      (readOpenEntries fuel depth rest).map fun (entries, rest) => (.map entries, rest)
    | 6, some tag, depth =>
      match readBigNumber tag rest, depth with
      | some big, _ => do
        let (big, rest) ← big
        let item ← bigNumber? (tag = 3) big
        return (item, rest)
      | none, depth + 1 =>
        (readItem fuel depth rest).map fun (item, rest) => (.tagged tag item, rest)
      | none, 0 => none
    | 7, some n, _ => (simple? head.info n).map fun item => (item, rest)
    | _, _, _ => none

def readItems : Nat → Nat → Nat → Octets → Option (List Cbor × Octets)
  | 0, _, _, _ => none
  | fuel + 1, depth, count, octets =>
    match count with
    | 0 => some ([], octets)
    | count + 1 => do
      let (item, rest) ← readItem fuel depth octets
      let (items, rest) ← readItems fuel depth count rest
      return (item :: items, rest)

def readOpenItems : Nat → Nat → Octets → Option (List Cbor × Octets)
  | 0, _, _ => none
  | fuel + 1, depth, octets =>
    match octets with
    | 0xFF :: rest => some ([], rest)
    | octets => do
      let (item, rest) ← readItem fuel depth octets
      let (items, rest) ← readOpenItems fuel depth rest
      return (item :: items, rest)

def readEntries : Nat → Nat → Nat → Octets → Option (List (Cbor × Cbor) × Octets)
  | 0, _, _, _ => none
  | fuel + 1, depth, count, octets =>
    match count with
    | 0 => some ([], octets)
    | count + 1 => do
      let (key, rest) ← readItem fuel depth octets
      let (value, rest) ← readItem fuel depth rest
      let (entries, rest) ← readEntries fuel depth count rest
      return ((key, value) :: entries, rest)

def readOpenEntries : Nat → Nat → Octets → Option (List (Cbor × Cbor) × Octets)
  | 0, _, _ => none
  | fuel + 1, depth, octets =>
    match octets with
    | 0xFF :: rest => some ([], rest)
    | octets => do
      let (key, rest) ← readItem fuel depth octets
      let (value, rest) ← readItem fuel depth rest
      let (entries, rest) ← readOpenEntries fuel depth rest
      return ((key, value) :: entries, rest)

end

def maxDepth : Nat := 256

def read? (octets : Octets) : Option (Cbor × Octets) :=
  readItem (2 * octets.length + 2) maxDepth octets

end FieldLink.CborReader
