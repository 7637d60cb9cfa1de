import FieldLink.Description
import FieldLink.FileTree
import FieldLink.QuotedText
import FieldLink.SecurityError

/-!
# Secrets under names, in memory or with a file for each secret

A name has ASCII letters, digits, underscores, points and hyphens, and is neither of the two names that
directories have for themselves; so it never leads out of its directory.
-/

namespace FieldLink

inductive SecretStore where
  | memory (secrets : List (String × Octets))
  /-- The files of a directory, which need not be there before the first secret is put. -/
  | directory (path : String) (tree : FileTree)

namespace SecretStore

def empty : SecretStore := .memory []

def isNameChar (c : Char) : Bool := c.isAlphanum || c = '_' || c = '.' || c = '-'

def isName (name : String) : Bool :=
  name ≠ "" && name.toList.all isNameChar && name ≠ "." && name ≠ ".."

def pathOf (directory name : String) : String :=
  if directory = "" ∨ directory.toList.getLast? = some '/' then directory ++ name
  else directory ++ "/" ++ name

def get (s : SecretStore) (name : String) : Except StoreError Octets :=
  if isName name then
    match s with
    | .memory secrets =>
      match secrets.lookup name with
      | some secret => .ok secret
      | none => .error (.notFound name)
    | .directory path tree =>
      match tree.read (pathOf path name) with
      | .ok secret => .ok secret
      | .error .missing => .error (.notFound name)
      | .error .refused => .error .inputOutput
  else .error (.invalidName name)

/-- Puts a secret under a name, in place of any other there. The directory is made even where the file
cannot be written. -/
def put (s : SecretStore) (name : String) (secret : Octets) : Except StoreError Unit × SecretStore :=
  if isName name then
    match s with
    | .memory secrets => (.ok (), .memory ((name, secret) :: secrets.filter (·.1 ≠ name)))
    | .directory path tree =>
      match tree.makeDirectory path with
      | .error _ => (.error .inputOutput, s)
      | .ok tree =>
        match tree.write (pathOf path name) secret with
        | .ok tree => (.ok (), .directory path tree)
        | .error _ => (.error .inputOutput, .directory path tree)
  else (.error (.invalidName name), s)

/-- Puts secrets one after the other, up to the first that cannot be put. -/
def putAll (s : SecretStore) : List (String × Octets) → Except StoreError Unit × SecretStore
  | [] => (.ok (), s)
  | (name, secret) :: rest =>
    match s.put name secret with
    | (.ok (), s) => s.putAll rest
    | (.error e, s) => (.error e, s)

def describe : SecretStore → String
  | .memory secrets =>
    Description.record "MemorySecretStore"
      [("names", Description.list (secrets.map fun secret => quoteText secret.1))]
  | .directory path _ => Description.record "FileSecretStore" [("dir", quoteText path)]

end SecretStore
end FieldLink
