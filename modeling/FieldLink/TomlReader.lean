import FieldLink.TomlToken

/-!
# Reading TOML 1.0

Strings are read one character at a time by a machine with a few states; values and statements
are bounded by the length of the text, and their nesting by a limit of its own.
-/

namespace FieldLink.TomlReader

def isBlank (c : Char) : Bool := c = ' ' ∨ c = '\t'

def skipBlank (text : List Char) : List Char := text.dropWhile isBlank

def isContent (c : Char) : Bool := c = '\t' ∨ (0x20 ≤ c.toNat ∧ c.toNat ≠ 0x7F)

def afterBreak? : List Char → Option (List Char)
  | '\n' :: rest => some rest
  | '\r' :: '\n' :: rest => some rest
  | _ => none

/-- The text after the end of a line: blanks, perhaps a comment, and a break unless the text ends. -/
def afterLine? (text : List Char) : Option (List Char) :=
  let rest := skipBlank text
  let rest := if rest.head? = some '#' then rest.dropWhile isContent else rest
  if rest.isEmpty then some [] else afterBreak? rest

/-- The text after blanks, line breaks and comments, which are all that may stand between the items of an
array. -/
def skipLines (inComment : Bool) : List Char → Option (List Char)
  | [] => if inComment then none else some []
  | c :: rest =>
    if c = '\n' then skipLines false rest
    else if c = '\r' ∧ rest.head? = some '\n' then skipLines false rest
    else if inComment then if isContent c then skipLines true rest else none
    else if isBlank c then skipLines false rest
    else if c = '#' then skipLines true rest
    else some (c :: rest)

inductive StringState where
  | content
  | escape
  | code (left : Nat) (value : Nat)
  /-- After a backslash and blanks, before the end of the line. -/
  | lineEnd
  /-- After a backslash at the end of a line, before the next character that is no space. -/
  | trimming
deriving DecidableEq

def escape? (c : Char) : Option Char :=
  if c = 'b' then some '\x08'
  else if c = 't' then some '\t'
  else if c = 'n' then some '\n'
  else if c = 'f' then some '\x0c'
  else if c = 'r' then some '\r'
  else if c = '"' then some '"'
  else if c = '\\' then some '\\'
  else none

def scalar? (code : Nat) : Option Char :=
  if code < 0xD800 ∨ (0xE000 ≤ code ∧ code < 0x110000) then some (.ofNat code) else none

/-- What closes a string of many lines: three quotes, of which up to two more in front are content. -/
def closing? (quote : Char) : List Char → Option (List Char × List Char)
  | a :: b :: rest =>
    if a = quote ∧ b = quote then
      let content := (rest.take 2).takeWhile (· = quote)
      some (content, rest.drop content.length)
    else none
  | _ => none

/-- The rest of a string, up to and with its closing quotes. `lines` tells whether it may have many lines,
and `escapes` whether a backslash has a meaning. -/
def readString (quote : Char) (escapes lines : Bool) :
    StringState → List Char → Option (List Char × List Char)
  | _, [] => none
  | state, c :: rest =>
    let push (d : Char) (state : StringState) : Option (List Char × List Char) :=
      (readString quote escapes lines state rest).map fun (content, rest) => (d :: content, rest)
    let isBreak := c = '\n' ∨ (c = '\r' ∧ rest.head? = some '\n')
    match state with
    | .escape =>
      if c = 'u' then readString quote escapes lines (.code 4 0) rest
      else if c = 'U' then readString quote escapes lines (.code 8 0) rest
      else if lines ∧ c = '\n' then readString quote escapes lines .trimming rest
      else if lines ∧ (isBlank c ∨ isBreak) then readString quote escapes lines .lineEnd rest
      else
        match escape? c with
        | some d => push d .content
        | none => none
    | .lineEnd =>
      if c = '\n' then readString quote escapes lines .trimming rest
      else if isBlank c ∨ isBreak then readString quote escapes lines .lineEnd rest
      else none
    | .code left value =>
      match Hexadecimal.digitValue? c with
      | none => none
      | some d =>
        if left = 1 then
          match scalar? (value * 16 + d) with
          | some d => push d .content
          | none => none
        else readString quote escapes lines (.code (left - 1) (value * 16 + d)) rest
    | .content | .trimming =>
      if state = .trimming ∧ (isBlank c ∨ isBreak) then readString quote escapes lines .trimming rest
      else if c = quote then
        if lines then
          match closing? quote rest with
          | some found => some found
          | none => push c .content
        else some ([], rest)
      else if escapes ∧ c = '\\' then readString quote escapes lines .escape rest
      else if isBreak then
        if !lines then none
        else if c = '\n' then push c .content
        else readString quote escapes lines .content rest
      else if isContent c then push c .content
      else none

def readLineString (quote : Char) (text : List Char) : Option (String × List Char) :=
  (readString quote (quote = '"') false .content text).map fun (s, rest) => (.ofList s, rest)

/-- A string of many lines, after its opening quotes. A line break right behind them does not count. -/
def readLinesString (quote : Char) (text : List Char) : Option (String × List Char) :=
  (readString quote (quote = '"') true .content ((afterBreak? text).getD text)).map
    fun (s, rest) => (.ofList s, rest)

def readQuoted (text : List Char) : Option (String × List Char) :=
  match text with
  | '"' :: '"' :: '"' :: rest => readLinesString '"' rest
  | '\'' :: '\'' :: '\'' :: rest => readLinesString '\'' rest
  | '"' :: rest => readLineString '"' rest
  | '\'' :: rest => readLineString '\'' rest
  | _ => none

def isBareChar (c : Char) : Bool := c.isAlphanum ∨ c = '_' ∨ c = '-'

def readPart (text : List Char) : Option (String × List Char) :=
  match text with
  | '"' :: rest => readLineString '"' rest
  | '\'' :: rest => readLineString '\'' rest
  | _ =>
    let bare := text.takeWhile isBareChar
    if bare.isEmpty then none else some (.ofList bare, text.dropWhile isBareChar)

def readParts : Nat → List Char → Option (List String × List Char)
  | 0, _ => none
  | fuel + 1, text => do
    let (part, rest) ← readPart (skipBlank text)
    match skipBlank rest with
    | '.' :: rest => (readParts fuel rest).map fun (parts, rest) => (part :: parts, rest)
    | rest => return ([part], rest)

/-- One more than the number of parts that a key may have, and of brackets inside one another. -/
def depthLimit : Nat := 80

def readKey (text : List Char) : Option ((List String × String) × List Char) := do
  let (parts, rest) ← readParts (text.length + 1) text
  if parts.length < depthLimit then
    let name ← parts.getLast?
    return ((parts.dropLast, name), rest)
  else none

mutual

/-- A value, with at most `depth` brackets inside one another. -/
def readValue : Nat → Nat → List Char → Option (Toml × List Char)
  | 0, _, _ => none
  | fuel + 1, depth, text =>
    match text, depth with
    | '[' :: _, 0 => none
    | '\x7b' :: _, 0 => none
    | '[' :: rest, depth + 1 => do
      let (items, rest) ← readItems fuel depth rest
      return (.array items, rest)
    | '\x7b' :: rest, depth + 1 =>
      match skipBlank rest with
      | '\x7d' :: rest => some (.table .braced [], rest)
      | rest => do
        let (members, rest) ← readMembers fuel depth [] rest
        return (.table .braced members, rest)
    | c :: _, _ =>
      if c = '"' ∨ c = '\'' then (readQuoted text).map fun (s, rest) => (.text s, rest)
      else TomlToken.read? text
    | [], _ => none

/-- The items of an array, up to and with its closing bracket. The last one may have a comma behind. -/
def readItems : Nat → Nat → List Char → Option (List Toml × List Char)
  | 0, _, _ => none
  | fuel + 1, depth, text => do
    match ← skipLines false text with
    | ']' :: rest => return ([], rest)
    | text =>
      let (item, rest) ← readValue fuel depth text
      match ← skipLines false rest with
      | ',' :: rest =>
        let (items, rest) ← readItems fuel depth rest
        return (item :: items, rest)
      | ']' :: rest => return ([item], rest)
      | _ => none

def readMembers : Nat → Nat → TomlMembers → List Char → Option (TomlMembers × List Char)
  | 0, _, _, _ => none
  | fuel + 1, depth, members, text => do
    let ((path, name), rest) ← readKey text
    match rest with
    | '=' :: rest =>
      let (value, rest) ← readValue fuel depth (skipBlank rest)
      let members ← Toml.assign path name value .headed members
      match skipBlank rest with
      | ',' :: rest => readMembers fuel depth members rest
      | '\x7d' :: rest => return (members, rest)
      | _ => none
    | _ => none

end

def readTopValue (text : List Char) : Option (Toml × List Char) :=
  readValue (2 * text.length + 2) (depthLimit - 1) text

/-- What was read so far: the document, and the header of the table that takes new members. -/
structure Progress where
  root : TomlMembers
  header : List String

def readStatement (p : Progress) (text : List Char) : Option (Progress × List Char) := do
  match text with
  | '[' :: '[' :: rest =>
    let ((path, name), rest) ← readKey rest
    match rest with
    | ']' :: ']' :: rest => return (⟨← Toml.openRepeated path name p.root, path ++ [name]⟩, rest)
    | _ => none
  | '[' :: rest =>
    let ((path, name), rest) ← readKey rest
    match rest with
    | ']' :: rest => return (⟨← Toml.openTable path name p.root, path ++ [name]⟩, rest)
    | _ => none
  | _ =>
    let ((path, name), rest) ← readKey text
    match rest with
    | '=' :: rest =>
      let (value, rest) ← readTopValue (skipBlank rest)
      return (⟨← Toml.assignUnder p.header path name value p.root, p.header⟩, rest)
    | _ => none

def readLines : Nat → Progress → List Char → Option TomlMembers
  | 0, _, _ => none
  | fuel + 1, p, text =>
    match afterLine? text with
    | some [] => some p.root
    | some rest => readLines fuel p rest
    | none => do
      let (p, rest) ← readStatement p (skipBlank text)
      let rest ← afterLine? rest
      readLines fuel p rest

/-- The members of a document. A byte order mark in front does not count. -/
def read? (text : List Char) : Option TomlMembers :=
  let text := match text with
    | '\uFEFF' :: rest => rest
    | text => text
  readLines (text.length + 1) ⟨[], []⟩ text

end FieldLink.TomlReader
