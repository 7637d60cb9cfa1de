import FieldLink.JsonDocument

/-!
# JSON texts for people

One member or item a line, two blanks for each level. Empty objects and arrays stay on their line.
-/

namespace FieldLink.Document

def newLine (level : Nat) : List Char := '\n' :: List.replicate (2 * level) ' '

mutual

/-- The text of a document whose first line is at some level already. -/
def indentedText (level : Nat) : Document → List Char
  | .array (item :: rest) =>
    '[' :: newLine (level + 1) ++ indentedText (level + 1) item ++ indentedItems level rest
  | .object ((name, value) :: rest) =>
    '\x7b' :: newLine (level + 1) ++ quotedText name ++ ':' :: ' ' ::
      indentedText (level + 1) value ++ indentedMembers level rest
  | d => d.jsonText

def indentedItems (level : Nat) : List Document → List Char
  | [] => newLine level ++ [']']
  | item :: rest =>
    ',' :: newLine (level + 1) ++ indentedText (level + 1) item ++ indentedItems level rest

def indentedMembers (level : Nat) : List (String × Document) → List Char
  | [] => newLine level ++ ['\x7d']
  | (name, value) :: rest =>
    ',' :: newLine (level + 1) ++ quotedText name ++ ':' :: ' ' ::
      indentedText (level + 1) value ++ indentedMembers level rest

end

end FieldLink.Document
