import FieldLink.Document

/-!
# TOML documents as trees of tables

A table may be named by headers and by dotted keys in many ways, but it is defined once: how it came to be
decides what may still be added to it.
-/

namespace FieldLink

/-- How a table came to be. An implied one only stands on the way to the table of a longer header. -/
inductive TableOrigin where
  | braced
  | headed
  | implied
  | dotted
deriving DecidableEq

/-- A TOML value. Of floats and times no reader wants more than that they are there, and of the tables with one
header the latest stands first. -/
inductive Toml where
  | text (value : String)
  | integer (value : Int)
  | bool (value : Bool)
  | float
  | time
  | array (items : List Toml)
  | table (origin : TableOrigin) (members : List (String × Toml))
  | tables (items : List (List (String × Toml)))

abbrev TomlMembers := List (String × Toml)

namespace Toml

/-- Changes the table at the end of a path. Tables that are missing on the way come to be with the origin
`new`; the last of several tables with one header stands for all of them; and a dotted key goes through no
table that has a header. -/
def changeAt (new : TableOrigin) (change : TableOrigin → TomlMembers → Option TomlMembers) :
    List String → TableOrigin → TomlMembers → Option TomlMembers
  | [], origin, members => change origin members
  | name :: path, _, members =>
    match members.lookup name with
    | none => do
      let inner ← changeAt new change path new []
      return members ++ [(name, .table new inner)]
    | some (.table origin inner) =>
      if origin = .braced ∨ (new = .dotted ∧ origin = .headed) then none
      else do
        let inner ← changeAt new change path origin inner
        return setMember name (.table origin inner) members
    | some (.tables (latest :: earlier)) => do
      let latest ← changeAt new change path .headed latest
      return setMember name (.tables (latest :: earlier)) members
    | some _ => none

/-- Adds a member that is not there yet. A table that dotted keys made takes members from dotted keys
alone, and any other table from plain keys alone. -/
def addMember (isDotted : Bool) (name : String) (value : Toml) (origin : TableOrigin)
    (members : TomlMembers) : Option TomlMembers :=
  if isDotted ≠ (origin = .dotted) ∨ (members.lookup name).isSome then none
  else some (members ++ [(name, value)])

def assign (path : List String) (name : String) (value : Toml) (origin : TableOrigin)
    (members : TomlMembers) : Option TomlMembers :=
  changeAt .dotted (addMember (!path.isEmpty) name value) path origin members

def openTable (path : List String) (name : String) (root : TomlMembers) : Option TomlMembers :=
  changeAt .implied (fun _ members =>
    match members.lookup name with
    | none => some (members ++ [(name, .table .headed [])])
    | some (.table .implied inner) => some (setMember name (.table .headed inner) members)
    | some _ => none) path .headed root

def openRepeated (path : List String) (name : String) (root : TomlMembers) : Option TomlMembers :=
  changeAt .implied (fun _ members =>
    match members.lookup name with
    | none => some (members ++ [(name, .tables [[]])])
    | some (.tables items) => some (setMember name (.tables ([] :: items)) members)
    | some _ => none) path .headed root

def assignUnder (header path : List String) (name : String) (value : Toml) (root : TomlMembers) :
    Option TomlMembers :=
  changeAt .implied (assign path name value) header .headed root

end Toml
end FieldLink
