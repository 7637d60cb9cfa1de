import FieldLink.JsonReader
import FieldLink.Toml

/-!
# Settings as trees

What JSON and TOML files have in common. Values that no setting has, such as floats, are kept without their
content, and so is a table with a name that is no text.
-/

namespace FieldLink

inductive Setting where
  | nothing
  | bool (value : Bool)
  | integer (value : Int)
  | text (value : String)
  | list (items : List Setting)
  | table (members : List (String × Setting))
  | other

structure SettingStyle where
  /-- Whether a list for a record may be longer than the record. -/
  surplus : Bool
  /-- What stands beside a name that is written as the only one of a table. -/
  isUnit : Setting → Bool

namespace Setting

/-- The integer of a JSON number; the negative zero is none. -/
def ofJsonNumber (n : JsonNumber) : Setting :=
  if !n.whole ∨ (n.negative ∧ n.coefficient = 0) then .other
  else .integer (if n.negative then -n.coefficient else n.coefficient)

def named? : List (List JsonUnit × Setting) → Option (List (String × Setting))
  | [] => some []
  | (units, value) :: rest => do
    let name ← JsonUnit.text? units
    let rest ← named? rest
    return (name, value) :: rest

mutual

def ofJson : Json → Setting
  | .null => .nothing
  | .bool b => .bool b
  | .number n => ofJsonNumber n
  | .text units => ((JsonUnit.text? units).map .text).getD .other
  | .array items => .list (ofJsonItems items)
  | .object members => ((named? (ofJsonMembers members)).map .table).getD .other

def ofJsonItems : List Json → List Setting
  | [] => []
  | item :: rest => ofJson item :: ofJsonItems rest

def ofJsonMembers : List (List JsonUnit × Json) → List (List JsonUnit × Setting)
  | [] => []
  | (units, value) :: rest => (units, ofJson value) :: ofJsonMembers rest

end

mutual

/-- The setting of a TOML value. A time is a table with one name that no record has. -/
def ofToml : Toml → Setting
  | .text s => .text s
  | .integer n => .integer n
  | .bool b => .bool b
  | .float => .other
  | .time => .table [("", .other)]
  | .array items => .list (ofTomlItems items)
  | .table _ members => .table (ofTomlMembers members)
  | .tables items => .list (ofTomlTables items).reverse

def ofTomlItems : List Toml → List Setting
  | [] => []
  | item :: rest => ofToml item :: ofTomlItems rest

def ofTomlMembers : List (String × Toml) → List (String × Setting)
  | [] => []
  | (name, value) :: rest => (name, ofToml value) :: ofTomlMembers rest

def ofTomlTables : List (List (String × Toml)) → List Setting
  | [] => []
  | members :: rest => .table (ofTomlMembers members) :: ofTomlTables rest

end

/-- The value of a name that must not be repeated. -/
def once? (members : List (String × Setting)) (name : String) : Option (Option Setting) :=
  match members.filter (·.1 = name) with
  | [] => some none
  | [(_, value)] => some (some value)
  | _ => none

/-- The value of each field of a record: a table with their names beside others, or a list in the order of
the fields, of which the last may be missing. -/
def fields? (style : SettingStyle) (names : List String) : Setting → Option (List (Option Setting))
  | .table members => names.mapM (once? members)
  | .list items =>
    if items.length ≤ names.length ∨ style.surplus then
      some (names.mapIdx fun i _ => items[i]?)
    else none
  | _ => none

def field {α : Type} (read : Setting → Option α) (default : α) : Option Setting → Option α
  | none => some default
  | some s => read s

def bool? : Setting → Option Bool
  | .bool b => some b
  | _ => none

def text? : Setting → Option String
  | .text s => some s
  | _ => none

def natural? (bound : Nat) : Setting → Option Nat
  | .integer n => if 0 ≤ n ∧ n < bound then some n.toNat else none
  | _ => none

def uint32? (s : Setting) : Option UInt32 := (s.natural? (2 ^ 32)).map .ofNat
def uint64? (s : Setting) : Option UInt64 := (s.natural? (2 ^ 64)).map .ofNat

/-- One of several names: a text, or the only name of a table beside nothing. -/
def name? (style : SettingStyle) : Setting → Option String
  | .text name => some name
  | .table [(name, value)] => if style.isUnit value then some name else none
  | _ => none

end Setting

namespace SettingStyle

/-- JSON lists are never too long, and nothing is null. -/
def json : SettingStyle where
  surplus := false
  isUnit
    | .nothing => true
    | _ => false

/-- TOML lists may be too long, and nothing is an empty table or list. -/
def toml : SettingStyle where
  surplus := true
  isUnit
    | .table [] => true
    | .list [] => true
    | _ => false

end SettingStyle
end FieldLink
