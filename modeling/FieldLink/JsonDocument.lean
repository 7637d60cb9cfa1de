import FieldLink.Decimal
import FieldLink.Document
import FieldLink.JsonReader
import FieldLink.Utf8

/-!
# Documents as JSON texts

A whole number is an integer where it fits and a float where it does not; a number with fraction or exponent is
a float always.
-/

namespace FieldLink

/-- The number as a document. The negative zero has no integer, and infinity has no number at all. -/
def JsonNumber.toDocument? (number : JsonNumber) : Option Document :=
  let signed : Int := if number.negative then -number.coefficient else number.coefficient
  match Integer.ofInt? signed with
  | some n =>
    if number.whole ∧ ¬(number.negative ∧ number.coefficient = 0) then some (.integer n) else float
  | none => float
where
  float : Option Document :=
    (Decimal.round .double number.negative ⟨number.coefficient, number.exponent⟩).finite?.map .float

namespace Json

def maxDepth : Nat := 127

mutual

/-- The document that a JSON text stands for, with at most `depth` levels. -/
def toDocumentWithin (depth : Nat) : Json → Option Document
  | .null => some .null
  | .bool value => some (.bool value)
  | .number n => n.toDocument?
  | .text units => (JsonUnit.text? units).map .text
  | .array items =>
    match depth with
    | 0 => none
    | depth + 1 => (itemsWithin depth items).map .array
  | .object members =>
    match depth with
    | 0 => none
    | depth + 1 => (membersWithin depth members).map fun members => .object (mergeMembers members)

def itemsWithin (depth : Nat) : List Json → Option (List Document)
  | [] => some []
  | item :: rest => do
    let item ← toDocumentWithin depth item
    let rest ← itemsWithin depth rest
    return item :: rest

def membersWithin (depth : Nat) : List (List JsonUnit × Json) → Option (List (String × Document))
  | [] => some []
  | (name, value) :: rest => do
    let name ← JsonUnit.text? name
    let value ← toDocumentWithin depth value
    let rest ← membersWithin depth rest
    return (name, value) :: rest

end

end Json

namespace Document

def readJson? (octets : Octets) : Option Document := do
  let text ← Utf8.decode? octets
  let json ← JsonReader.read? text
  json.toDocumentWithin Json.maxDepth

def quotedChar (c : Char) : List Char :=
  if c = '"' then ['\\', '"']
  else if c = '\\' then ['\\', '\\']
  else if c = '\x08' then ['\\', 'b']
  else if c = '\x0c' then ['\\', 'f']
  else if c = '\n' then ['\\', 'n']
  else if c = '\r' then ['\\', 'r']
  else if c = '\t' then ['\\', 't']
  else if c.toNat < 0x20 then
    ['\\', 'u', '0', '0', Hexadecimal.lowerDigit (c.toNat / 16), Hexadecimal.lowerDigit (c.toNat % 16)]
  else [c]

def quotedText (s : String) : List Char := '"' :: s.toList.flatMap quotedChar ++ ['"']

def integerText (n : Int) : List Char := signText (n < 0) ++ decimalDigits n.natAbs

mutual

def jsonText : Document → List Char
  | .null => ['n', 'u', 'l', 'l']
  | .bool true => ['t', 'r', 'u', 'e']
  | .bool false => ['f', 'a', 'l', 's', 'e']
  | .integer n => integerText n.val
  | .float x => x.documentText
  | .text s => quotedText s
  | .array [] => ['[', ']']
  | .array (item :: rest) => '[' :: jsonText item ++ itemsText rest
  | .object [] => ['\x7b', '\x7d']
  | .object ((name, value) :: rest) =>
    '\x7b' :: quotedText name ++ ':' :: jsonText value ++ membersText rest

def itemsText : List Document → List Char
  | [] => [']']
  | item :: rest => ',' :: jsonText item ++ itemsText rest

def membersText : List (String × Document) → List Char
  | [] => ['\x7d']
  | (name, value) :: rest => ',' :: quotedText name ++ ':' :: jsonText value ++ membersText rest

end

def writeJson (d : Document) : Octets := Utf8.encode d.jsonText

end Document
end FieldLink
