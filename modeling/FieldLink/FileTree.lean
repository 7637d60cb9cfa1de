import FieldLink.Octets

/-!
# Files under their paths

A path is followed name by name, from the root when it begins with a slash and from the tree's own place when it
does not. Every step starts in a directory; an empty name and a single point stay there, two points go back to
the directory that holds it.
-/

namespace FieldLink

/-- Where a file or a directory is: the names on the way to it from the root. -/
abbrev Place := List String

inductive FileEntry where
  | file (contents : Octets)
  | directory
deriving DecidableEq

inductive PathFault where
  | missing
  /-- The path cannot be followed at all, or what it leads to is of the wrong kind. -/
  | refused
deriving DecidableEq

structure FileTree where
  entries : List (Place × FileEntry)
  here : Place

namespace FileTree

def empty : FileTree := ⟨[], []⟩

def maxPath : Nat := 4095

def maxName : Nat := 255

/-- What is at a place. The root is a directory always. -/
def entry? (t : FileTree) (place : Place) : Option FileEntry :=
  if place = [] then some .directory else t.entries.lookup place

def set (t : FileTree) (place : Place) (entry : FileEntry) : FileTree :=
  { t with entries := (place, entry) :: t.entries.filter (·.1 ≠ place) }

def step (place : Place) (name : String) : Except PathFault Place :=
  if name = "" ∨ name = "." then .ok place
  else if name = ".." then .ok place.dropLast
  else if maxName < name.utf8ByteSize then .error .refused
  else .ok (place ++ [name])

/-- Follows names from a place. What the last one leads to need not be there. -/
def follow (t : FileTree) (place : Place) : List String → Except PathFault Place
  | [] => .ok place
  | name :: rest =>
    match t.entry? place with
    | some .directory =>
      match step place name with
      | .ok place => t.follow place rest
      | .error fault => .error fault
    | some (.file _) => .error .refused
    | none => .error .missing

def parts : List Char → List (List Char)
  | [] => [[]]
  | c :: rest =>
    match parts rest with
    | [] => [[c]]
    | part :: others => if c = '/' then [] :: part :: others else (c :: part) :: others

/-- The beginning of a path and the names in it. A path that is empty, too long or with the character zero
is none. -/
def split (t : FileTree) (path : String) : Except PathFault (Place × List String) :=
  if path = "" then .error .missing
  else if maxPath < path.utf8ByteSize ∨ '\x00' ∈ path.toList then .error .refused
  else .ok (if path.toList.head? = some '/' then [] else t.here,
    (parts path.toList).map String.ofList)

def locate (t : FileTree) (path : String) : Except PathFault Place := do
  let (start, names) ← t.split path
  t.follow start names

def read (t : FileTree) (path : String) : Except PathFault Octets := do
  match t.entry? (← t.locate path) with
  | some (.file contents) => .ok contents
  | some .directory => .error .refused
  | none => .error .missing

def write (t : FileTree) (path : String) (contents : Octets) : Except PathFault FileTree := do
  let place ← t.locate path
  if t.entry? place = some .directory then .error .refused else .ok (t.set place (.file contents))

def ensure (t : FileTree) (place : Place) : Except PathFault FileTree :=
  match t.entry? place with
  | some .directory => .ok t
  | some (.file _) => .error .refused
  | none => .ok (t.set place .directory)

def extend (t : FileTree) (place : Place) : List String → Except PathFault FileTree
  | [] => t.ensure place
  | name :: rest =>
    match t.ensure place, step place name with
    | .ok t, .ok place => t.extend place rest
    | .error fault, _ | _, .error fault => .error fault

def makeDirectory (t : FileTree) (path : String) : Except PathFault FileTree := do
  let (start, names) ← t.split path
  t.extend start names

end FileTree
end FieldLink
