import FieldLink.Document

/-!
# Reading records out of documents

A record is an object with the names of its fields, in any order and beside other names, or an array with the
values of its fields in the order of declaration, of which the last ones may be left out.
-/

namespace FieldLink.Shape

/-- The value of each named field, where there is one. -/
def fields? (names : List String) : Document → Option (List (Option Document))
  | .object members => some (names.map fun name => members.lookup name)
  | .array items =>
    if items.length ≤ names.length then
      some (items.map some ++ List.replicate (names.length - items.length) none)
    else none
  | _ => none

def required {α : Type} (read : Document → Option α) (field : Option Document) : Option α :=
  field.bind read

def optional {α : Type} (read : Document → Option α) : Option Document → Option (Option α)
  | none => some none
  | some .null => some none
  | some d => (read d).map some

def list? {α : Type} (read : Document → Option α) : Document → Option (List α)
  | .array items => items.mapM read
  | _ => none

/-- One of several names: as a text, or as the only name of an object, beside null. -/
def name? : Document → Option String
  | .text name => some name
  | .object [(name, .null)] => some name
  | _ => none

end FieldLink.Shape
