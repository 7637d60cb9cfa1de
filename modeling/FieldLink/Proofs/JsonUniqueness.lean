import FieldLink.Proofs.JsonInverse

/-!
# One document to a JSON text

A JSON text stands for one document only, and so does each text that begins another: where two texts are
followed by what ends a number, both the documents and what follows are the same. Names may stand twice in an
object here, and nesting has no limit.
-/

namespace FieldLink

open JsonReader

namespace Document

private theorem quotedText_append_inj {s t : String} {rest rest' : List Char}
    (h : quotedText s ++ rest = quotedText t ++ rest') : s = t ∧ rest = rest' := by
  obtain ⟨units, hunits, hread⟩ := readString_quotedText s rest
  obtain ⟨units', hunits', hread'⟩ := readString_quotedText t rest'
  rw [h, hread'] at hread
  cases hread
  rw [hunits] at hunits'
  cases hunits'
  exact ⟨rfl, rfl⟩

/-- Neither an array nor an object. -/
def IsScalar : Document → Prop
  | .array _ => False
  | .object _ => False
  | _ => True

theorem IsScalar.depth {d : Document} (h : d.IsScalar) : d.depth = 0 := by
  cases d with
  | array items => cases h
  | object members => cases h
  | _ => rfl

theorem IsScalar.hasDistinctNames {d : Document} (h : d.IsScalar) : d.HasDistinctNames := by
  cases d with
  | array items => cases h
  | object members => cases h
  | _ => trivial

theorem IsScalar.head_jsonText {d : Document} (h : d.IsScalar) :
    ∃ c tail, d.jsonText = c :: tail ∧ c ≠ '[' ∧ c ≠ '\x7b' := by
  have hnumber {text : List Char} {n : JsonNumber} (hread : readNumber (text ++ []) = some (n, [])) :
      ∃ c tail, text = c :: tail ∧ c ≠ '[' ∧ c ≠ '\x7b' := by
    rw [List.append_nil] at hread
    obtain ⟨c, tail, htext, hc⟩ := head_of_readNumber hread
    exact ⟨c, tail, htext, hc.ne (by decide) (by decide), hc.ne (by decide) (by decide)⟩
  cases d with
  | null => exact ⟨'n', _, rfl, by decide, by decide⟩
  | bool value =>
    cases value with
    | true => exact ⟨'t', _, rfl, by decide, by decide⟩
    | false => exact ⟨'f', _, rfl, by decide, by decide⟩
  | integer n =>
    obtain ⟨k, hread, -⟩ := readNumber_integerText n endsNumber_nil
    exact hnumber hread
  | float x =>
    obtain ⟨k, hread, -⟩ := readNumber_documentText x endsNumber_nil
    exact hnumber hread
  | text s => exact ⟨'"', _, rfl, by decide, by decide⟩
  | array items => cases h
  | object members => cases h

theorem exists_jsonText_array (items : List Document) : ∃ tail, (array items).jsonText = '[' :: tail := by
  cases items with
  | nil => exact ⟨_, rfl⟩
  | cons item items => exact ⟨_, rfl⟩

theorem exists_jsonText_object (members : List (String × Document)) :
    ∃ tail, (object members).jsonText = '\x7b' :: tail := by
  cases members with
  | nil => exact ⟨_, rfl⟩
  | cons member members => exact ⟨_, rfl⟩

/-- What a scalar is read as depends on its text alone. -/
theorem IsScalar.jsonText_append_inj {d e : Document} {rest rest' : List Char} (hd : d.IsScalar)
    (he : e.IsScalar) (hrest : EndsNumber rest) (hrest' : EndsNumber rest')
    (h : d.jsonText ++ rest = e.jsonText ++ rest') : d = e ∧ rest = rest' := by
  obtain ⟨json, hread, hvalue⟩ := readValue_jsonText d 0 (2 * (d.jsonText.length + e.jsonText.length))
    hd.hasDistinctNames (Nat.le_of_eq hd.depth) (by omega) hrest
  obtain ⟨json', hread', hvalue'⟩ := readValue_jsonText e 0 (2 * (d.jsonText.length + e.jsonText.length))
    he.hasDistinctNames (Nat.le_of_eq he.depth) (by omega) hrest'
  rw [h, hread'] at hread
  cases hread
  rw [hvalue] at hvalue'
  cases hvalue'
  exact ⟨rfl, rfl⟩

private theorem head_ne_of_append_eq {c d : Char} {tail tail' rest rest' : List Char} (hne : c ≠ d) :
    c :: tail ++ rest ≠ d :: tail' ++ rest' := by
  intro h
  rw [List.cons_append, List.cons_append] at h
  exact hne (List.cons.inj h).1

private theorem IsScalar.jsonText_append_ne {d e : Document} {rest rest' : List Char} (hd : d.IsScalar)
    (he : ¬e.IsScalar) : d.jsonText ++ rest ≠ e.jsonText ++ rest' := by
  obtain ⟨c, tail, htext, harray, hobject⟩ := hd.head_jsonText
  cases e with
  | array items =>
    obtain ⟨tail', htext'⟩ := exists_jsonText_array items
    rw [htext, htext']
    exact head_ne_of_append_eq harray
  | object members =>
    obtain ⟨tail', htext'⟩ := exists_jsonText_object members
    rw [htext, htext']
    exact head_ne_of_append_eq hobject
  | _ => exact absurd trivial he

private theorem jsonText_array_ne_object {items : List Document} {members : List (String × Document)}
    {rest rest' : List Char} : (array items).jsonText ++ rest ≠ (object members).jsonText ++ rest' := by
  obtain ⟨tail, htext⟩ := exists_jsonText_array items
  obtain ⟨tail', htext'⟩ := exists_jsonText_object members
  rw [htext, htext']
  exact head_ne_of_append_eq (by decide)

private theorem isScalar_or (d : Document) :
    d.IsScalar ∨ (∃ items, d = .array items) ∨ ∃ members, d = .object members := by
  cases d with
  | array items => exact .inr (.inl ⟨items, rfl⟩)
  | object members => exact .inr (.inr ⟨members, rfl⟩)
  | _ => exact .inl trivial

mutual

/-- A text is one document's alone, whatever follows that ends a number. -/
theorem jsonText_append_inj (d e : Document) {rest rest' : List Char} (hrest : EndsNumber rest)
    (hrest' : EndsNumber rest') (h : d.jsonText ++ rest = e.jsonText ++ rest') : d = e ∧ rest = rest' := by
  cases d with
  | array items =>
    rcases e.isScalar_or with he | ⟨items', rfl⟩ | ⟨members', rfl⟩
    · exact absurd h.symm (he.jsonText_append_ne (fun hscalar => hscalar))
    · cases items with
      | nil =>
        cases items' with
        | nil => exact ⟨rfl, by simpa [jsonText] using h⟩
        | cons item' items' =>
          obtain ⟨c, tail, htext, -, hclose⟩ := head_jsonText item'
          simp only [jsonText, htext, List.cons_append, List.cons.injEq, true_and] at h
          exact absurd h.1.symm hclose
      | cons item items =>
        cases items' with
        | nil =>
          obtain ⟨c, tail, htext, -, hclose⟩ := head_jsonText item
          simp only [jsonText, htext, List.cons_append, List.cons.injEq, true_and] at h
          exact absurd h.1 hclose
        | cons item' items' =>
          simp only [jsonText, List.cons_append, List.append_assoc, List.cons.injEq, true_and] at h
          obtain ⟨rfl, htail⟩ := jsonText_append_inj item item' (endsNumber_itemsText items rest)
            (endsNumber_itemsText items' rest') h
          obtain ⟨rfl, rfl⟩ := itemsText_append_inj items items' htail
          exact ⟨rfl, rfl⟩
    · exact absurd h jsonText_array_ne_object
  | object members =>
    rcases e.isScalar_or with he | ⟨items', rfl⟩ | ⟨members', rfl⟩
    · exact absurd h.symm (he.jsonText_append_ne (fun hscalar => hscalar))
    · exact absurd h.symm jsonText_array_ne_object
    · cases members with
      | nil =>
        cases members' with
        | nil => exact ⟨rfl, by simpa [jsonText] using h⟩
        | cons member' members' => simp [jsonText, quotedText] at h
      | cons member members =>
        cases members' with
        | nil => simp [jsonText, quotedText] at h
        | cons member' members' =>
          obtain ⟨name, value⟩ := member
          obtain ⟨name', value'⟩ := member'
          simp only [jsonText, List.cons_append, List.append_assoc, List.cons.injEq, true_and] at h
          obtain ⟨rfl, hvalue⟩ := quotedText_append_inj h
          obtain ⟨rfl, htail⟩ := jsonText_append_inj value value' (endsNumber_membersText members rest)
            (endsNumber_membersText members' rest') (List.cons.inj hvalue).2
          obtain ⟨rfl, rfl⟩ := membersText_append_inj members members' htail
          exact ⟨rfl, rfl⟩
  | _ =>
    by_cases he : e.IsScalar
    · exact IsScalar.jsonText_append_inj trivial he hrest hrest' h
    · exact absurd h (IsScalar.jsonText_append_ne trivial he)

private theorem itemsText_append_inj (items items' : List Document) {rest rest' : List Char}
    (h : itemsText items ++ rest = itemsText items' ++ rest') : items = items' ∧ rest = rest' := by
  cases items with
  | nil =>
    cases items' with
    | nil => exact ⟨rfl, by simpa [itemsText] using h⟩
    | cons item' items' => simp [itemsText] at h
  | cons item items =>
    cases items' with
    | nil => simp [itemsText] at h
    | cons item' items' =>
      simp only [itemsText, List.cons_append, List.append_assoc, List.cons.injEq, true_and] at h
      obtain ⟨rfl, htail⟩ := jsonText_append_inj item item' (endsNumber_itemsText items rest)
        (endsNumber_itemsText items' rest') h
      obtain ⟨rfl, rfl⟩ := itemsText_append_inj items items' htail
      exact ⟨rfl, rfl⟩

private theorem membersText_append_inj (members members' : List (String × Document)) {rest rest' : List Char}
    (h : membersText members ++ rest = membersText members' ++ rest') :
    members = members' ∧ rest = rest' := by
  cases members with
  | nil =>
    cases members' with
    | nil => exact ⟨rfl, by simpa [membersText] using h⟩
    | cons member' members' => simp [membersText] at h
  | cons member members =>
    cases members' with
    | nil => simp [membersText] at h
    | cons member' members' =>
      obtain ⟨name, value⟩ := member
      obtain ⟨name', value'⟩ := member'
      simp only [membersText, List.cons_append, List.append_assoc, List.cons.injEq, true_and] at h
      obtain ⟨rfl, hvalue⟩ := quotedText_append_inj h
      obtain ⟨rfl, htail⟩ := jsonText_append_inj value value' (endsNumber_membersText members rest)
        (endsNumber_membersText members' rest') (List.cons.inj hvalue).2
      obtain ⟨rfl, rfl⟩ := membersText_append_inj members members' htail
      exact ⟨rfl, rfl⟩

end

/-- No two documents are written the same way. -/
theorem writeJson_inj {d e : Document} (h : d.writeJson = e.writeJson) : d = e := by
  have htext : d.jsonText = e.jsonText := by
    have hdecode := congrArg Utf8.decode? h
    simpa [writeJson] using hdecode
  have happend : d.jsonText ++ [] = e.jsonText ++ [] := by rw [htext]
  exact (jsonText_append_inj d e endsNumber_nil endsNumber_nil happend).1

end Document
end FieldLink
