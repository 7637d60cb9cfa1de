import FieldLink.Proofs.DocumentShape
import FieldLink.Proofs.JsonLayout
import FieldLink.Proofs.JsonNumberInverse
import FieldLink.Proofs.JsonStringInverse
import FieldLink.Proofs.Utf8Text

/-!
# Documents read back from JSON texts

A document is read back from its JSON text, whether compact or laid out for people. The induction is over the
document; a reader that may take two steps for each character always gets to the end of the value.
-/

namespace FieldLink.JsonReader

private theorem skipBlank_cons {c : Char} (h : isBlank c = false) (rest : List Char) :
    skipBlank (c :: rest) = c :: rest := by
  rw [skipBlank, List.dropWhile_cons, h, if_neg Bool.false_ne_true]

private theorem skipBlank_append {blanks : List Char} (h : ∀ c ∈ blanks, isBlank c = true) (text : List Char) :
    skipBlank (blanks ++ text) = skipBlank text :=
  List.dropWhile_append_of_pos h

theorem readValue_blanks {blanks : List Char} (h : ∀ c ∈ blanks, isBlank c = true) (fuel : Nat) (text : List Char) :
    readValue fuel (blanks ++ text) = readValue fuel text := by
  cases fuel with
  | zero => rfl
  | succ fuel => rw [readValue, readValue, skipBlank_append h]

def StartsNumber (c : Char) : Prop := c = '-' ∨ isDigit c = true

theorem StartsNumber.ne {c d : Char} (hc : StartsNumber c) (hsign : d ≠ '-') (hdigit : isDigit d = false) :
    c ≠ d := by
  rintro rfl
  rcases hc with hc | hc
  · exact hsign hc
  · rw [hdigit] at hc
    cases hc

theorem StartsNumber.isBlank {c : Char} (hc : StartsNumber c) : isBlank c = false := by
  have hspace := hc.ne (d := ' ') (by decide) (by decide)
  have htab := hc.ne (d := '\t') (by decide) (by decide)
  have hline := hc.ne (d := '\n') (by decide) (by decide)
  have hreturn := hc.ne (d := '\r') (by decide) (by decide)
  simp [JsonReader.isBlank, hspace, htab, hline, hreturn]

theorem head_of_readNumber {text rest : List Char} {n : JsonNumber} (h : readNumber text = some (n, rest)) :
    ∃ c tail, text = c :: tail ∧ StartsNumber c := by
  cases text with
  | nil => simp [readNumber, readUnsigned, readWhole, readDigits] at h
  | cons c tail =>
    refine ⟨c, tail, rfl, ?_⟩
    by_contra hother
    rw [StartsNumber, not_or] at hother
    have hunsigned : readNumber (c :: tail) = readUnsigned false (c :: tail) := by
      unfold readNumber
      split
      · next heq => exact absurd (List.cons.inj heq).1 hother.1
      · rfl
    have hdigits : readDigits (c :: tail) = none := by
      simp only [readDigits, List.takeWhile_cons, hother.2]
      rfl
    rw [hunsigned, readUnsigned, readWhole, hdigits] at h
    cases h

private theorem readValue_of_readNumber {text rest : List Char} {n : JsonNumber}
    (h : readNumber text = some (n, rest)) (fuel : Nat) :
    readValue (fuel + 1) text = some (.number n, rest) := by
  obtain ⟨c, tail, rfl, hc⟩ := head_of_readNumber h
  rw [readValue, skipBlank_cons hc.isBlank]
  split
  · next heq => exact absurd (List.cons.inj heq).1 (hc.ne (by decide) (by decide))
  · next heq => exact absurd (List.cons.inj heq).1 (hc.ne (by decide) (by decide))
  · next heq => exact absurd (List.cons.inj heq).1 (hc.ne (by decide) (by decide))
  · next heq => exact absurd (List.cons.inj heq).1 (hc.ne (by decide) (by decide))
  · next heq => exact absurd (List.cons.inj heq).1 (hc.ne (by decide) (by decide))
  · next heq => exact absurd (List.cons.inj heq).1 (hc.ne (by decide) (by decide))
  · rw [h]
    rfl

theorem endsNumber_nil : EndsNumber [] := by
  intro c hc
  cases hc

private theorem endsNumber_cons {c : Char} (h : isDigit c = false ∧ c ≠ '.' ∧ c ≠ 'e' ∧ c ≠ 'E') (rest : List Char) :
    EndsNumber (c :: rest) := by
  intro d hd
  cases hd
  exact h

theorem head_jsonText (d : Document) :
    ∃ c tail, d.jsonText = c :: tail ∧ isBlank c = false ∧ c ≠ ']' := by
  have hnumber {text : List Char} {n : JsonNumber} (h : readNumber (text ++ []) = some (n, [])) :
      ∃ c tail, text = c :: tail ∧ isBlank c = false ∧ c ≠ ']' := by
    rw [List.append_nil] at h
    obtain ⟨c, tail, htext, hc⟩ := head_of_readNumber h
    exact ⟨c, tail, htext, hc.isBlank, hc.ne (by decide) (by decide)⟩
  cases d with
  | null => exact ⟨'n', _, rfl, by decide, by decide⟩
  | bool value =>
    cases value with
    | true => exact ⟨'t', _, rfl, by decide, by decide⟩
    | false => exact ⟨'f', _, rfl, by decide, by decide⟩
  | integer n =>
    obtain ⟨k, hread, -⟩ := readNumber_integerText n endsNumber_nil
    exact hnumber hread
  | float x =>
    obtain ⟨k, hread, -⟩ := readNumber_documentText x endsNumber_nil
    exact hnumber hread
  | text s => exact ⟨'"', _, rfl, by decide, by decide⟩
  | array items =>
    cases items with
    | nil => exact ⟨'[', _, rfl, by decide, by decide⟩
    | cons item items => exact ⟨'[', _, rfl, by decide, by decide⟩
  | object members =>
    cases members with
    | nil => exact ⟨'\x7b', _, rfl, by decide, by decide⟩
    | cons member members => exact ⟨'\x7b', _, rfl, by decide, by decide⟩

private theorem skipBlank_quotedText (s : String) (rest : List Char) :
    skipBlank (Document.quotedText s ++ rest) = Document.quotedText s ++ rest :=
  skipBlank_cons (by decide) _

private theorem readValue_string (s : String) (fuel : Nat) (rest : List Char) :
    ∃ units, JsonUnit.text? units = some s ∧
      readValue (fuel + 1) (Document.quotedText s ++ rest) = some (.text units, rest) := by
  obtain ⟨units, hspelt, hread⟩ := readString_quotedText s rest
  refine ⟨units, hspelt, ?_⟩
  rw [Document.quotedText, List.cons_append, List.cons_append, readString] at hread
  rw [Document.quotedText, List.cons_append, List.cons_append, readValue, skipBlank_cons (by decide)]
  simp only [hread, Option.map_some]

private theorem endsNumber_append {blanks : List Char} (hblanks : ∀ c ∈ blanks, isBlank c = true) {c : Char}
    (hc : isDigit c = false ∧ c ≠ '.' ∧ c ≠ 'e' ∧ c ≠ 'E') (rest : List Char) : EndsNumber (blanks ++ c :: rest) := by
  cases blanks with
  | nil => exact endsNumber_cons hc rest
  | cons blank blanks =>
    have hblank := hblanks blank List.mem_cons_self
    refine endsNumber_cons ?_ _
    simp only [isBlank, decide_eq_true_eq] at hblank
    rcases hblank with rfl | rfl | rfl | rfl <;> decide

variable {l : Layout}

private theorem endsNumber_items (level : Nat) (items : List Document) (rest : List Char) :
    EndsNumber (l.itemsText level items ++ rest) := by
  cases items with
  | nil =>
    rw [Layout.itemsText, List.append_assoc]
    exact endsNumber_append (l.isBlank_line level) (by decide) rest
  | cons item items => exact endsNumber_cons (by decide) _

private theorem endsNumber_members (level : Nat) (members : List (String × Document)) (rest : List Char) :
    EndsNumber (l.membersText level members ++ rest) := by
  cases members with
  | nil =>
    rw [Layout.membersText, List.append_assoc]
    exact endsNumber_append (l.isBlank_line level) (by decide) rest
  | cons member members => exact endsNumber_cons (by decide) _

theorem endsNumber_itemsText (items : List Document) (rest : List Char) :
    EndsNumber (Document.itemsText items ++ rest) := by
  rw [← Layout.compact_itemsText 0]
  exact endsNumber_items 0 items rest

theorem endsNumber_membersText (members : List (String × Document)) (rest : List Char) :
    EndsNumber (Document.membersText members ++ rest) := by
  rw [← Layout.compact_membersText 0]
  exact endsNumber_members 0 members rest

private theorem head_text (level : Nat) (d : Document) :
    ∃ c tail, l.text level d = c :: tail ∧ isBlank c = false ∧ c ≠ ']' := by
  cases d with
  | array items =>
    cases items with
    | nil => exact head_jsonText (.array [])
    | cons item items => exact ⟨'[', _, rfl, by decide, by decide⟩
  | object members =>
    cases members with
    | nil => exact head_jsonText (.object [])
    | cons member members => exact ⟨'\x7b', _, rfl, by decide, by decide⟩
  | _ => exact head_jsonText _

mutual

/-- A value is read back from its text in any layout, when the text is followed by what ends a number. -/
theorem readValue_text (level : Nat) (d : Document) (depth fuel : Nat) {rest : List Char}
    (hnames : d.HasDistinctNames) (hdepth : d.depth ≤ depth) (hfuel : 2 * (l.text level d).length ≤ fuel)
    (hrest : EndsNumber rest) :
    ∃ json, readValue fuel (l.text level d ++ rest) = some (json, rest) ∧ json.toDocumentWithin depth = some d := by
  -- The recursion is on the fuel: a nested value has two steps less, and a text shorter by a bracket.
  obtain ⟨steps, rfl⟩ : ∃ steps, fuel = steps + 1 := by
    obtain ⟨c, tail, htext, -⟩ := head_text (l := l) level d
    rw [htext, List.length_cons] at hfuel
    exact ⟨fuel - 1, by omega⟩
  cases d with
  | null => exact ⟨.null, rfl, rfl⟩
  | bool value =>
    cases value with
    | true => exact ⟨.bool true, rfl, rfl⟩
    | false => exact ⟨.bool false, rfl, rfl⟩
  | integer n =>
    obtain ⟨k, hread, hvalue⟩ := readNumber_integerText n hrest
    exact ⟨.number k, readValue_of_readNumber hread steps, hvalue⟩
  | float x =>
    obtain ⟨k, hread, hvalue⟩ := readNumber_documentText x hrest
    exact ⟨.number k, readValue_of_readNumber hread steps, hvalue⟩
  | text s =>
    obtain ⟨units, hspelt, hread⟩ := readValue_string s steps rest
    refine ⟨.text units, hread, ?_⟩
    rw [Json.toDocumentWithin, hspelt]
    rfl
  | array items =>
    rw [Document.depth] at hdepth
    obtain ⟨below, rfl⟩ : ∃ below, depth = below + 1 := ⟨depth - 1, by omega⟩
    cases items with
    | nil => exact ⟨.array [], rfl, rfl⟩
    | cons item items =>
      simp only [Layout.text, List.length_cons, List.length_append] at hfuel
      rw [Document.HasDistinctNames] at hnames
      obtain ⟨read, hread, hvalue⟩ :=
        readItems_text level [] item items below steps rest (by simp) hnames (by omega) (by omega)
      refine ⟨.array read, ?_, ?_⟩
      · obtain ⟨c, tail, htext, hblank, hclose⟩ := head_text (l := l) (level + 1) item
        have hopen : l.text level (.array (item :: items)) ++ rest =
            '[' :: (l.line (level + 1) ++ (l.text (level + 1) item ++ (l.itemsText level items ++ rest))) := by
          simp only [Layout.text, List.cons_append, List.append_assoc]
        rw [hopen, readValue, skipBlank_cons (by decide)]
        rw [List.nil_append] at hread
        rw [htext, List.cons_append] at hread ⊢
        simp only [skipBlank_append (l.isBlank_line _), skipBlank_cons hblank]
        split
        · next heq => exact absurd (List.cons.inj heq).1 hclose
        · rw [hread]
          rfl
      · rw [Json.toDocumentWithin, hvalue]
        rfl
  | object members =>
    rw [Document.depth] at hdepth
    obtain ⟨below, rfl⟩ : ∃ below, depth = below + 1 := ⟨depth - 1, by omega⟩
    cases members with
    | nil => exact ⟨.object [], rfl, rfl⟩
    | cons member members =>
      obtain ⟨name, value⟩ := member
      simp only [Layout.text, List.length_cons, List.length_append] at hfuel
      rw [Document.HasDistinctNames] at hnames
      obtain ⟨read, hread, hvalue⟩ :=
        readMembers_text level [] name value members below steps rest (by simp) hnames.2 (by omega) (by omega)
      refine ⟨.object read, ?_, ?_⟩
      · have hopen : l.text level (.object ((name, value) :: members)) ++ rest =
            '\x7b' :: (l.line (level + 1) ++ (Document.quotedText name ++
              ':' :: (l.gap ++ (l.text (level + 1) value ++ (l.membersText level members ++ rest))))) := by
          simp only [Layout.text, List.cons_append, List.append_assoc]
        rw [hopen, readValue, skipBlank_cons (by decide)]
        simp only [skipBlank_append (l.isBlank_line _), skipBlank_quotedText]
        split
        · next heq => cases heq
        · rw [List.nil_append] at hread
          rw [hread]
          rfl
      · rw [Json.toDocumentWithin, hvalue]
        simp only [Option.map_some, mergeMembers_of_nodup hnames.1]
termination_by fuel

theorem readItems_text (level : Nat) (blanks : List Char) (item : Document) (items : List Document) (depth fuel : Nat)
    (rest : List Char) (hblanks : ∀ c ∈ blanks, isBlank c = true)
    (hnames : Document.ItemsHaveDistinctNames (item :: items)) (hdepth : Document.itemsDepth (item :: items) ≤ depth)
    (hfuel : 2 * ((l.text (level + 1) item).length + (l.itemsText level items).length) < fuel) :
    ∃ read, readItems fuel (blanks ++ (l.text (level + 1) item ++ (l.itemsText level items ++ rest))) =
        some (read, rest) ∧ Json.itemsWithin depth read = some (item :: items) := by
  obtain ⟨steps, rfl⟩ : ∃ steps, fuel = steps + 1 := ⟨fuel - 1, by omega⟩
  rw [Document.ItemsHaveDistinctNames] at hnames
  rw [Document.itemsDepth] at hdepth
  obtain ⟨json, hread, hvalue⟩ := readValue_text (level + 1) item depth steps hnames.1 (by omega) (by omega)
    (endsNumber_items (l := l) level items rest)
  rw [readItems, readValue_blanks hblanks, hread]
  simp only [Option.bind_eq_bind, Option.bind_some]
  cases items with
  | nil =>
    rw [Layout.itemsText, List.append_assoc, List.singleton_append, skipBlank_append (l.isBlank_line level),
      skipBlank_cons (by decide)]
    refine ⟨[json], rfl, ?_⟩
    rw [Json.itemsWithin, hvalue]
    rfl
  | cons next items =>
    simp only [Layout.itemsText, List.length_cons, List.length_append] at hfuel
    obtain ⟨read, hreads, hvalues⟩ := readItems_text level (l.line (level + 1)) next items depth steps rest
      (l.isBlank_line _) hnames.2 (by omega) (by omega)
    simp only [Layout.itemsText, List.cons_append, List.append_assoc,
      skipBlank_cons (show isBlank ',' = false by decide), hreads, Option.map_some]
    refine ⟨json :: read, rfl, ?_⟩
    rw [Json.itemsWithin, hvalue, hvalues]
    rfl
termination_by fuel

theorem readMembers_text (level : Nat) (blanks : List Char) (name : String) (value : Document)
    (members : List (String × Document)) (depth fuel : Nat) (rest : List Char)
    (hblanks : ∀ c ∈ blanks, isBlank c = true)
    (hnames : Document.MembersHaveDistinctNames ((name, value) :: members))
    (hdepth : Document.membersDepth ((name, value) :: members) ≤ depth)
    (hfuel : 2 * ((Document.quotedText name).length + ((l.text (level + 1) value).length +
      (l.membersText level members).length)) < fuel) :
    ∃ read, readMembers fuel (blanks ++ (Document.quotedText name ++ ':' :: (l.gap ++
        (l.text (level + 1) value ++ (l.membersText level members ++ rest))))) = some (read, rest) ∧
      Json.membersWithin depth read = some ((name, value) :: members) := by
  obtain ⟨steps, rfl⟩ : ∃ steps, fuel = steps + 1 := ⟨fuel - 1, by omega⟩
  rw [Document.MembersHaveDistinctNames] at hnames
  rw [Document.membersDepth] at hdepth
  obtain ⟨units, hspelt, hname⟩ := readString_quotedText name
    (':' :: (l.gap ++ (l.text (level + 1) value ++ (l.membersText level members ++ rest))))
  obtain ⟨json, hread, hvalue⟩ := readValue_text (level + 1) value depth steps hnames.1 (by omega) (by omega)
    (endsNumber_members (l := l) level members rest)
  rw [readMembers, skipBlank_append hblanks, skipBlank_quotedText, hname]
  simp only [Option.bind_eq_bind, Option.bind_some, skipBlank_cons (show isBlank ':' = false by decide),
    readValue_blanks l.isBlank_gap, hread]
  cases members with
  | nil =>
    rw [Layout.membersText, List.append_assoc, List.singleton_append, skipBlank_append (l.isBlank_line level),
      skipBlank_cons (by decide)]
    refine ⟨[(units, json)], rfl, ?_⟩
    rw [Json.membersWithin, hspelt, hvalue]
    rfl
  | cons member members =>
    obtain ⟨next, nextValue⟩ := member
    simp only [Layout.membersText, List.length_cons, List.length_append] at hfuel
    obtain ⟨read, hreads, hvalues⟩ := readMembers_text level (l.line (level + 1)) next nextValue members depth steps
      rest (l.isBlank_line _) hnames.2 (by omega) (by omega)
    simp only [Layout.membersText, List.cons_append, List.append_assoc,
      skipBlank_cons (show isBlank ',' = false by decide), hreads, Option.map_some]
    refine ⟨(units, json) :: read, rfl, ?_⟩
    rw [Json.membersWithin, hspelt, hvalue, hvalues]
    rfl
termination_by fuel

end

theorem readValue_jsonText (d : Document) (depth fuel : Nat) {rest : List Char} (hnames : d.HasDistinctNames)
    (hdepth : d.depth ≤ depth) (hfuel : 2 * d.jsonText.length ≤ fuel) (hrest : EndsNumber rest) :
    ∃ json, readValue fuel (d.jsonText ++ rest) = some (json, rest) ∧ json.toDocumentWithin depth = some d := by
  rw [← Layout.compact_text 0] at hfuel ⊢
  exact readValue_text 0 d depth fuel hnames hdepth hfuel hrest

end FieldLink.JsonReader

namespace FieldLink.Document

variable {d : Document}

/-- A document is read back from its text in any layout. -/
theorem readJson?_text (l : Layout) (hnames : d.HasDistinctNames) (hdepth : d.depth ≤ Json.maxDepth) :
    readJson? (Utf8.encode (l.text 0 d)) = some d := by
  obtain ⟨json, hread, hvalue⟩ := JsonReader.readValue_text (l := l) 0 d Json.maxDepth
    (JsonReader.fuelFor (l.text 0 d)) hnames hdepth (by rw [JsonReader.fuelFor]; omega) JsonReader.endsNumber_nil
  rw [List.append_nil] at hread
  have htext : JsonReader.read? (l.text 0 d) = some json := by
    rw [JsonReader.read?, hread]
    rfl
  simp only [readJson?, Utf8.decode?_encode, htext, Option.bind_eq_bind, Option.bind_some, hvalue]

/-- A document is read back from its JSON text. -/
theorem readJson?_writeJson (hnames : d.HasDistinctNames) (hdepth : d.depth ≤ Json.maxDepth) :
    readJson? d.writeJson = some d := by
  rw [writeJson, ← Layout.compact_text 0]
  exact readJson?_text .compact hnames hdepth

theorem readJson?_indentedText (hnames : d.HasDistinctNames) (hdepth : d.depth ≤ Json.maxDepth) :
    readJson? (Utf8.encode (d.indentedText 0)) = some d := by
  rw [← Layout.indented_text]
  exact readJson?_text .indented hnames hdepth

end FieldLink.Document
