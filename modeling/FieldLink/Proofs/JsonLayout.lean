import FieldLink.IndentedJson
import FieldLink.JsonReader

/-!
# One writer for all JSON texts of a document

They differ in the blanks between their tokens alone: the compact text has none, and the text for people begins
a line with each member or item.
-/

namespace FieldLink

/-- The blanks of a text: in front of what stands at some level, and behind a colon. -/
structure Layout where
  line : Nat → List Char
  gap : List Char
  isBlank_line : ∀ level, ∀ c ∈ line level, JsonReader.isBlank c = true
  isBlank_gap : ∀ c ∈ gap, JsonReader.isBlank c = true

namespace Layout

mutual

/-- The text of a document whose first line is at some level already. -/
def text (l : Layout) (level : Nat) : Document → List Char
  | .array (item :: rest) => '[' :: (l.line (level + 1) ++ (l.text (level + 1) item ++ l.itemsText level rest))
  | .object ((name, value) :: rest) => '\x7b' :: (l.line (level + 1) ++ (Document.quotedText name ++
      ':' :: (l.gap ++ (l.text (level + 1) value ++ l.membersText level rest))))
  | d => d.jsonText

def itemsText (l : Layout) (level : Nat) : List Document → List Char
  | [] => l.line level ++ [']']
  | item :: rest => ',' :: (l.line (level + 1) ++ (l.text (level + 1) item ++ l.itemsText level rest))

def membersText (l : Layout) (level : Nat) : List (String × Document) → List Char
  | [] => l.line level ++ ['\x7d']
  | (name, value) :: rest => ',' :: (l.line (level + 1) ++ (Document.quotedText name ++
      ':' :: (l.gap ++ (l.text (level + 1) value ++ l.membersText level rest))))

end

def compact : Layout where
  line _ := []
  gap := []
  isBlank_line _ _ h := by cases h
  isBlank_gap _ h := by cases h

@[simp] theorem compact_line (level : Nat) : compact.line level = [] := rfl

@[simp] theorem compact_gap : compact.gap = [] := rfl

/-- A line for each member or item, and a blank behind a colon. -/
def indented : Layout where
  line := Document.newLine
  gap := [' ']
  isBlank_line level c h := by
    rcases List.mem_cons.mp h with rfl | hspace
    · decide
    · rw [List.eq_of_mem_replicate hspace]
      decide
  isBlank_gap c h := by
    rw [List.mem_singleton.mp h]
    decide

@[simp] theorem indented_line (level : Nat) : indented.line level = Document.newLine level := rfl

@[simp] theorem indented_gap : indented.gap = [' '] := rfl

mutual

theorem compact_text (level : Nat) (d : Document) : compact.text level d = d.jsonText := by
  cases d with
  | array items =>
    cases items with
    | nil => rfl
    | cons item items => simp [text, Document.jsonText, compact_text, compact_itemsText]
  | object members =>
    cases members with
    | nil => rfl
    | cons member members => simp [text, Document.jsonText, compact_text, compact_membersText]
  | _ => rfl

theorem compact_itemsText (level : Nat) (items : List Document) :
    compact.itemsText level items = Document.itemsText items := by
  cases items with
  | nil => rfl
  | cons item items => simp [itemsText, Document.itemsText, compact_text, compact_itemsText]

theorem compact_membersText (level : Nat) (members : List (String × Document)) :
    compact.membersText level members = Document.membersText members := by
  cases members with
  | nil => rfl
  | cons member members => simp [membersText, Document.membersText, compact_text, compact_membersText]

end

mutual

theorem indented_text (level : Nat) (d : Document) : indented.text level d = d.indentedText level := by
  cases d with
  | array items =>
    cases items with
    | nil => rfl
    | cons item items => simp [text, Document.indentedText, indented_text, indented_itemsText]
  | object members =>
    cases members with
    | nil => rfl
    | cons member members => simp [text, Document.indentedText, indented_text, indented_membersText]
  | _ => rfl

private theorem indented_itemsText (level : Nat) (items : List Document) :
    indented.itemsText level items = Document.indentedItems level items := by
  cases items with
  | nil => rfl
  | cons item items => simp [itemsText, Document.indentedItems, indented_text, indented_itemsText]

private theorem indented_membersText (level : Nat) (members : List (String × Document)) :
    indented.membersText level members = Document.indentedMembers level members := by
  cases members with
  | nil => rfl
  | cons member members => simp [membersText, Document.indentedMembers, indented_text, indented_membersText]

end

end Layout
end FieldLink
