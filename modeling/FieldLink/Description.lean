/-! # Diagnostic texts of records, with the names of their fields, of optional values and of lists -/

namespace FieldLink.Description

def record (name : String) (fields : List (String × String)) : String :=
  let body := ", ".intercalate (fields.map fun field => field.1 ++ ": " ++ field.2)
  name ++ " \x7b " ++ body ++ " \x7d"

def optional : Option String → String
  | none => "None"
  | some text => "Some(" ++ text ++ ")"

def bool (b : Bool) : String := if b then "true" else "false"

def list (items : List String) : String := "[" ++ ", ".intercalate items ++ "]"

def redacted : String := "[REDACTED]"

def secret (name : String) : String := name ++ "(" ++ redacted ++ ")"

end FieldLink.Description
