import FieldLink.Proofs.CborReading
import FieldLink.Proofs.EnvelopeFidelity

/-!
# Which reader an octet string goes to

The first octet of a map continues a character, so that no text begins with it: what the CBOR reader takes as a
map is no JSON, whatever follows, and what begins with a brace or a bracket is no map. Trying one reader after
the other therefore decides as asking each on its own would.
-/

namespace FieldLink

namespace JsonReader

mutual

/-- With more steps allowed, a value is read the same. -/
theorem readValue_longer (fuel : Nat) {longer : Nat} (hle : fuel ≤ longer) {text : List Char}
    {read : Json × List Char} (h : readValue fuel text = some read) : readValue longer text = some read := by
  cases fuel with
  | zero => cases h
  | succ fuel =>
    obtain ⟨steps, rfl⟩ : ∃ steps, longer = steps + 1 := ⟨longer - 1, by omega⟩
    rw [readValue] at h ⊢
    split at h
    · split at h
      · exact h
      · obtain ⟨members, hmembers, h⟩ := Option.map_eq_some_iff.mp h
        simp only [readMembers_longer fuel (Nat.le_of_succ_le_succ hle) hmembers, Option.map_some, h]
    · split at h
      · exact h
      · obtain ⟨items, hitems, h⟩ := Option.map_eq_some_iff.mp h
        simp only [readItems_longer fuel (Nat.le_of_succ_le_succ hle) hitems, Option.map_some, h]
    all_goals exact h
termination_by fuel

private theorem readItems_longer (fuel : Nat) {longer : Nat} (hle : fuel ≤ longer) {text : List Char}
    {read : List Json × List Char} (h : readItems fuel text = some read) : readItems longer text = some read := by
  cases fuel with
  | zero => cases h
  | succ fuel =>
    obtain ⟨steps, rfl⟩ : ∃ steps, longer = steps + 1 := ⟨longer - 1, by omega⟩
    rw [readItems] at h ⊢
    obtain ⟨⟨item, rest⟩, hitem, h⟩ := Option.bind_eq_some_iff.mp h
    rw [readValue_longer fuel (Nat.le_of_succ_le_succ hle) hitem]
    simp only [Option.bind_eq_bind, Option.bind_some] at h ⊢
    split at h
    · obtain ⟨items, hitems, h⟩ := Option.map_eq_some_iff.mp h
      simp only [readItems_longer fuel (Nat.le_of_succ_le_succ hle) hitems, Option.map_some, h]
    · exact h
    · cases h
termination_by fuel

private theorem readMembers_longer (fuel : Nat) {longer : Nat} (hle : fuel ≤ longer) {text : List Char}
    {read : List (List JsonUnit × Json) × List Char} (h : readMembers fuel text = some read) :
    readMembers longer text = some read := by
  cases fuel with
  | zero => cases h
  | succ fuel =>
    obtain ⟨steps, rfl⟩ : ∃ steps, longer = steps + 1 := ⟨longer - 1, by omega⟩
    rw [readMembers] at h ⊢
    obtain ⟨⟨name, rest⟩, hname, h⟩ := Option.bind_eq_some_iff.mp h
    rw [hname]
    simp only [Option.bind_eq_bind, Option.bind_some] at h ⊢
    split at h
    · obtain ⟨⟨value, rest⟩, hvalue, h⟩ := Option.bind_eq_some_iff.mp h
      simp only [readValue_longer fuel (Nat.le_of_succ_le_succ hle) hvalue, Option.bind_some] at h ⊢
      split at h
      · obtain ⟨members, hmembers, h⟩ := Option.map_eq_some_iff.mp h
        simp only [readMembers_longer fuel (Nat.le_of_succ_le_succ hle) hmembers, Option.map_some, h]
      · exact h
      · cases h
    · cases h
termination_by fuel

end

private theorem read?_blanks {blanks : List Char} (h : ∀ c ∈ blanks, isBlank c = true) {text : List Char} {json : Json}
    (hread : read? text = some json) : read? (blanks ++ text) = some json := by
  rw [read?] at hread ⊢
  obtain ⟨⟨value, rest⟩, hvalue, hend⟩ := Option.bind_eq_some_iff.mp hread
  have hfuel : fuelFor text ≤ fuelFor (blanks ++ text) := by
    simp only [fuelFor, List.length_append]
    omega
  rw [readValue_blanks h, readValue_longer _ hfuel hvalue]
  exact hend

end JsonReader

private theorem Document.readJson?_blanks {blanks : List Char} (h : ∀ c ∈ blanks, JsonReader.isBlank c = true)
    {octets : Octets} {d : Document} (hread : readJson? octets = some d) :
    readJson? (Utf8.encode blanks ++ octets) = some d := by
  rw [readJson?] at hread ⊢
  obtain ⟨text, htext, hread⟩ := Option.bind_eq_some_iff.mp hread
  obtain ⟨json, hjson, hread⟩ := Option.bind_eq_some_iff.mp hread
  rw [Utf8.decode?_encode_append, htext]
  simp only [Option.map_some, Option.bind_eq_bind, Option.bind_some, JsonReader.read?_blanks h hjson]
  exact hread

private theorem Document.readJson?_nil : readJson? [] = none := by
  decide +kernel

namespace CborReader

private theorem major_of_isMap {fuel depth : Nat} {octets rest : Octets} {item : Cbor}
    (h : readItem fuel depth octets = some (item, rest)) (hmap : item.isMap = true) :
    ∃ head tail, readHead octets = some (head, tail) ∧ head.major = 5 := by
  cases fuel with
  | zero =>
    rw [readItem] at h
    cases h
  | succ fuel =>
    obtain ⟨head, tail, hhead, hbody⟩ := body_of_readItem h
    refine ⟨head, tail, hhead, ?_⟩
    cases hbody with
    | scalar hscalar hlength =>
      cases item with
      | map entries => cases hscalar
      | _ => cases hmap
    | map hmajor hentries => exact hmajor
    | openMap hmajor hentries => exact hmajor
    | text hlength | array hitems | openArray hitems | tagged hitem => cases hmap

/-- A map begins with one of 32 octets. -/
theorem first_of_isMap {octets rest : Octets} {item : Cbor} (h : read? octets = some (item, rest))
    (hmap : item.isMap = true) :
    ∃ first tail, octets = first :: tail ∧ 0xA0 ≤ first.toNat ∧ first.toNat < 0xC0 := by
  obtain ⟨head, after, hhead, hmajor⟩ := major_of_isMap h hmap
  obtain ⟨first, argument, rfl, hfirst⟩ := exists_of_readHead hhead
  exact ⟨first, argument ++ after, rfl, by omega, by omega⟩

end CborReader

/-- No octet string begins with a map and is a JSON text. -/
theorem Document.readJson?_of_isMap {octets rest : Octets} {item : Cbor}
    (h : CborReader.read? octets = some (item, rest)) (hmap : item.isMap = true) : readJson? octets = none := by
  obtain ⟨first, tail, rfl, hlower, hupper⟩ := CborReader.first_of_isMap h hmap
  exact readJson?_of_continuation (Nat.le_trans (by decide) hlower) hupper tail

theorem Cbor.isMap_iff {item : Cbor} : item.isMap = true ↔ ∃ entries, item = .map entries := by
  cases item <;> simp [isMap]

theorem Cbor.readMap_eq_ok_iff {octets : Octets} {item : Cbor} :
    readMap octets = .ok item ↔ CborReader.read? octets = some (item, []) ∧ item.isMap = true := by
  rw [readMap]
  split
  · next hread => simp [hread]
  · next other hread =>
    rw [hread]
    cases hmap : other.isMap with
    | true =>
      simp only [if_true, Except.ok.injEq, Option.some.injEq, Prod.mk.injEq, and_true]
      constructor
      · rintro rfl
        exact ⟨rfl, hmap⟩
      · exact And.left
    | false =>
      simp only [Bool.false_eq_true, if_false, reduceCtorEq, Option.some.injEq, Prod.mk.injEq, and_true, false_iff,
        not_and]
      rintro rfl
      rw [hmap]
      exact Bool.false_ne_true
  · next other rest hrest hread =>
    rw [hread]
    simp only [reduceCtorEq, Option.some.injEq, Prod.mk.injEq, false_iff, not_and]
    rintro ⟨-, hnil⟩
    exact absurd hnil hrest

namespace WireDocument

theorem read_cases (octets : Octets) :
    (∃ item, Cbor.readMap octets = .ok item ∧ read octets = .ok (.cbor item)) ∨
      (∃ refusal d, Cbor.readMap octets = .error refusal ∧ Document.readJson? octets = some d ∧
        read octets = .ok (.json d)) ∨
      ∃ refusal e, Cbor.readMap octets = .error refusal ∧ Document.readJson? octets = none ∧
        read octets = .error e := by
  cases hmap : Cbor.readMap octets with
  | ok item =>
    obtain ⟨hread, hitem⟩ := Cbor.readMap_eq_ok_iff.mp hmap
    obtain ⟨first, tail, rfl, hlower, -⟩ := CborReader.first_of_isMap hread hitem
    have hother : ¬(first = 0x7B ∨ first = 0x5B) := by
      rintro (rfl | rfl)
      all_goals exact absurd hlower (by decide)
    exact .inl ⟨item, rfl, by rw [read, if_neg hother, hmap]⟩
  | error refusal =>
    right
    cases octets with
    | nil => exact .inr ⟨refusal, .empty, rfl, Document.readJson?_nil, rfl⟩
    | cons first tail =>
      -- Both ways of reading come down to JSON here, with an error of their own.
      cases hjson : Document.readJson? (first :: tail) with
      | some d =>
        refine .inl ⟨refusal, d, rfl, rfl, ?_⟩
        rw [read, hmap, hjson]
        split <;> rfl
      | none =>
        right
        rw [read, hmap, hjson]
        split
        · exact ⟨refusal, .json, rfl, rfl, rfl⟩
        · exact ⟨refusal, .neither refusal, rfl, rfl, rfl⟩

theorem read_eq_cbor_iff {octets : Octets} {item : Cbor} :
    read octets = .ok (.cbor item) ↔ CborReader.read? octets = some (item, []) ∧ item.isMap = true := by
  rw [← Cbor.readMap_eq_ok_iff]
  rcases read_cases octets with ⟨read, hmap, hread⟩ | ⟨refusal, d, hmap, -, hread⟩ | ⟨refusal, e, hmap, -, hread⟩
  all_goals simp [hmap, hread]

theorem read_eq_json_iff {octets : Octets} {d : Document} :
    read octets = .ok (.json d) ↔ Document.readJson? octets = some d := by
  rcases read_cases octets with ⟨item, hmap, hread⟩ | ⟨refusal, other, -, hjson, hread⟩ | ⟨refusal, e, -, hjson, hread⟩
  · obtain ⟨hitem, hisMap⟩ := Cbor.readMap_eq_ok_iff.mp hmap
    simp [hread, Document.readJson?_of_isMap hitem hisMap]
  all_goals simp [hread, hjson]

/-- JSON is what the JSON reader takes as a whole, and CBOR is what the CBOR reader reads as one map with nothing
behind it; what begins with a map is no JSON, and all else is refused. Blanks in front of a JSON text change nothing,
and any document may be the text, with or without braces. -/
theorem read_tells_formats (octets : Octets) :
    (∀ d, read octets = .ok (.json d) ↔ Document.readJson? octets = some d) ∧
    (∀ item, read octets = .ok (.cbor item) ↔
      ∃ entries, item = .map entries ∧ CborReader.read? octets = some (.map entries, [])) ∧
    (∀ d entries rest, ¬(Document.readJson? octets = some d ∧
      CborReader.read? octets = some (.map entries, rest))) ∧
    ((∃ e, read octets = .error e) ↔ Document.readJson? octets = none ∧
      ∀ entries, CborReader.read? octets ≠ some (.map entries, [])) ∧
    (∀ blanks d, (∀ c ∈ blanks, JsonReader.isBlank c = true) → Document.readJson? octets = some d →
      read (Utf8.encode blanks ++ octets) = .ok (.json d)) ∧
    ∀ d, d.HasDistinctNames → d.depth ≤ Json.maxDepth → read d.writeJson = .ok (.json d) := by
  refine ⟨fun d => read_eq_json_iff, ?_, ?_, ?_, ?_, ?_⟩
  · intro item
    rw [read_eq_cbor_iff, Cbor.isMap_iff]
    constructor
    · rintro ⟨hread, entries, rfl⟩
      exact ⟨entries, rfl, hread⟩
    · rintro ⟨entries, rfl, hread⟩
      exact ⟨hread, entries, rfl⟩
  · rintro d entries rest ⟨hjson, hread⟩
    rw [Document.readJson?_of_isMap hread rfl] at hjson
    cases hjson
  · rcases read_cases octets with
      ⟨item, hmap, hread⟩ | ⟨refusal, d, hmap, hjson, hread⟩ | ⟨refusal, e, hmap, hjson, hread⟩
    · obtain ⟨hitem, hisMap⟩ := Cbor.readMap_eq_ok_iff.mp hmap
      obtain ⟨entries, rfl⟩ := Cbor.isMap_iff.mp hisMap
      simp [hread, hitem]
    · simp [hread, hjson]
    · refine iff_of_true ⟨e, hread⟩ ⟨hjson, ?_⟩
      intro entries hitem
      rw [Cbor.readMap_eq_ok_iff.mpr ⟨hitem, rfl⟩] at hmap
      cases hmap
  · intro blanks d hblanks hjson
    exact read_eq_json_iff.mpr (Document.readJson?_blanks hblanks hjson)
  · intro d hnames hdepth
    exact read_eq_json_iff.mpr (Document.readJson?_writeJson hnames hdepth)

/-- A number behind a space and a line end, both of which are items of CBOR. -/
theorem read_tells_formats_number :
    let number := Document.integer ⟨-7, by decide, by decide⟩
    read ([0x20, 0x0A] ++ [0x2D, 0x37]) = .ok (.json number) ∧
      CborReader.read? ([0x20, 0x0A] ++ [0x2D, 0x37]) = some (.integer (-1), [0x0A, 0x2D, 0x37]) := by
  intro number
  have hread : Document.readJson? [0x2D, 0x37] = some number :=
    Document.readJson?_writeJson (d := number) trivial (Nat.zero_le _)
  have hblanks : ∀ c ∈ [' ', '\n'], JsonReader.isBlank c = true := List.all_eq_true.mp rfl
  have hhead : CborReader.readHead ([0x20, 0x0A] ++ [0x2D, 0x37]) =
      some (⟨1, 0, some 0⟩, [0x0A, 0x2D, 0x37]) := rfl
  refine ⟨(read_tells_formats _).2.2.2.2.1 [' ', '\n'] number hblanks hread, ?_⟩
  show CborReader.readItem (9 + 1) 256 _ = _
  rw [CborReader.readItem, hhead]
  rfl

end WireDocument
end FieldLink
