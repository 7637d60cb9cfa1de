import FieldLink.Proofs.CborInverse
import FieldLink.Proofs.JsonInverse

/-!
# What a reader makes of a document that may lie too deep for it

A limit on nesting can only refuse: a reader that goes deeper reads the same, and one that goes deep enough
reads back what was written.
-/

namespace FieldLink

namespace Json

mutual

/-- With more levels allowed, a text stands for the same document. -/
theorem toDocumentWithin_deeper {depth deeper : Nat} (hle : depth ≤ deeper) (json : Json) {d : Document}
    (h : json.toDocumentWithin depth = some d) : json.toDocumentWithin deeper = some d := by
  cases json with
  | null | bool value | number n | text units => exact h
  | array items =>
    cases depth with
    | zero => cases h
    | succ depth =>
      obtain ⟨below, rfl⟩ : ∃ below, deeper = below + 1 := ⟨deeper - 1, by omega⟩
      rw [toDocumentWithin] at h ⊢
      obtain ⟨read, hread, hd⟩ := Option.map_eq_some_iff.mp h
      rw [itemsWithin_deeper (Nat.le_of_succ_le_succ hle) items hread, Option.map_some, hd]
  | object members =>
    cases depth with
    | zero => cases h
    | succ depth =>
      obtain ⟨below, rfl⟩ : ∃ below, deeper = below + 1 := ⟨deeper - 1, by omega⟩
      rw [toDocumentWithin] at h ⊢
      obtain ⟨read, hread, hd⟩ := Option.map_eq_some_iff.mp h
      rw [membersWithin_deeper (Nat.le_of_succ_le_succ hle) members hread, Option.map_some, hd]

private theorem itemsWithin_deeper {depth deeper : Nat} (hle : depth ≤ deeper) (items : List Json)
    {read : List Document} (h : itemsWithin depth items = some read) :
    itemsWithin deeper items = some read := by
  cases items with
  | nil => exact h
  | cons item items =>
    rw [itemsWithin] at h ⊢
    obtain ⟨first, hfirst, h⟩ := Option.bind_eq_some_iff.mp h
    obtain ⟨others, hothers, h⟩ := Option.bind_eq_some_iff.mp h
    rw [toDocumentWithin_deeper hle item hfirst, itemsWithin_deeper hle items hothers]
    exact h

private theorem membersWithin_deeper {depth deeper : Nat} (hle : depth ≤ deeper)
    (members : List (List JsonUnit × Json)) {read : List (String × Document)}
    (h : membersWithin depth members = some read) : membersWithin deeper members = some read := by
  cases members with
  | nil => exact h
  | cons member members =>
    obtain ⟨name, value⟩ := member
    rw [membersWithin] at h ⊢
    obtain ⟨spelt, hspelt, h⟩ := Option.bind_eq_some_iff.mp h
    obtain ⟨first, hfirst, h⟩ := Option.bind_eq_some_iff.mp h
    obtain ⟨others, hothers, h⟩ := Option.bind_eq_some_iff.mp h
    rw [hspelt, toDocumentWithin_deeper hle value hfirst, membersWithin_deeper hle members hothers]
    exact h

end

end Json

/-- Whatever is read from the JSON text of a document is the document, however deep it is. -/
theorem Document.eq_of_readJson?_writeJson {d read : Document} (hnames : d.HasDistinctNames)
    (h : readJson? d.writeJson = some read) : read = d := by
  obtain ⟨json, hread, hvalue⟩ := JsonReader.readValue_jsonText d d.depth (JsonReader.fuelFor d.jsonText)
    hnames (Nat.le_refl _) (by rw [JsonReader.fuelFor]; omega) JsonReader.endsNumber_nil
  rw [List.append_nil] at hread
  have htext : JsonReader.read? d.jsonText = some json := by
    rw [JsonReader.read?, hread]
    rfl
  simp only [readJson?, writeJson, Utf8.decode?_encode, htext, Option.bind_eq_bind, Option.bind_some] at h
  have hshallow := Json.toDocumentWithin_deeper (Nat.le_max_left Json.maxDepth d.depth) json h
  have hdeep := Json.toDocumentWithin_deeper (Nat.le_max_right Json.maxDepth d.depth) json hvalue
  rw [hshallow] at hdeep
  exact Option.some.inj hdeep

namespace CborReader

mutual

/-- With more levels allowed, an item is read the same. -/
theorem readItem_deeper (fuel : Nat) {depth deeper : Nat} (hle : depth ≤ deeper) {octets : Octets}
    {read : Cbor × Octets} (h : readItem fuel depth octets = some read) :
    readItem fuel deeper octets = some read := by
  cases fuel with
  | zero =>
    rw [readItem] at h
    cases h
  | succ fuel =>
    rw [readItem] at h ⊢
    obtain ⟨⟨⟨major, info, argument⟩, rest⟩, hhead, h⟩ := Option.bind_eq_some_iff.mp h
    rw [hhead]
    simp only [Option.bind_eq_bind, Option.bind_some] at h ⊢
    split at h
    · exact h
    · exact h
    · exact h
    · exact h
    · obtain ⟨below, rfl⟩ : ∃ below, deeper = below + 1 := ⟨deeper - 1, by omega⟩
      obtain ⟨items, hitems, h⟩ := Option.map_eq_some_iff.mp h
      simp only [readItems_deeper fuel (Nat.le_of_succ_le_succ hle) hitems, Option.map_some, h]
    · obtain ⟨below, rfl⟩ : ∃ below, deeper = below + 1 := ⟨deeper - 1, by omega⟩
      obtain ⟨items, hitems, h⟩ := Option.map_eq_some_iff.mp h
      simp only [readOpenItems_deeper fuel (Nat.le_of_succ_le_succ hle) hitems, Option.map_some, h]
    · obtain ⟨below, rfl⟩ : ∃ below, deeper = below + 1 := ⟨deeper - 1, by omega⟩
      obtain ⟨entries, hentries, h⟩ := Option.map_eq_some_iff.mp h
      simp only [readEntries_deeper fuel (Nat.le_of_succ_le_succ hle) hentries, Option.map_some, h]
    · obtain ⟨below, rfl⟩ : ∃ below, deeper = below + 1 := ⟨deeper - 1, by omega⟩
      obtain ⟨entries, hentries, h⟩ := Option.map_eq_some_iff.mp h
      simp only [readOpenEntries_deeper fuel (Nat.le_of_succ_le_succ hle) hentries, Option.map_some, h]
    · next tag =>
      cases hbig : readBigNumber tag rest with
      | some big =>
        rw [hbig] at h
        exact h
      | none =>
        rw [hbig] at h
        cases depth with
        | zero => cases h
        | succ depth =>
          obtain ⟨below, rfl⟩ : ∃ below, deeper = below + 1 := ⟨deeper - 1, by omega⟩
          obtain ⟨item, hitem, h⟩ := Option.map_eq_some_iff.mp h
          simp only [readItem_deeper fuel (Nat.le_of_succ_le_succ hle) hitem, Option.map_some, h]
    · exact h
    · cases h
termination_by fuel

private theorem readItems_deeper (fuel : Nat) {depth deeper : Nat} (hle : depth ≤ deeper) {count : Nat}
    {octets : Octets} {read : List Cbor × Octets} (h : readItems fuel depth count octets = some read) :
    readItems fuel deeper count octets = some read := by
  cases fuel with
  | zero =>
    rw [readItems] at h
    cases h
  | succ fuel =>
    cases count with
    | zero =>
      rw [readItems] at h ⊢
      exact h
    | succ count =>
      rw [readItems] at h ⊢
      obtain ⟨item, hitem, h⟩ := Option.bind_eq_some_iff.mp h
      obtain ⟨items, hitems, h⟩ := Option.bind_eq_some_iff.mp h
      rw [readItem_deeper fuel hle hitem]
      simp only [Option.bind_eq_bind, Option.bind_some, readItems_deeper fuel hle hitems]
      exact h
termination_by fuel

private theorem readOpenItems_deeper (fuel : Nat) {depth deeper : Nat} (hle : depth ≤ deeper) {octets : Octets}
    {read : List Cbor × Octets} (h : readOpenItems fuel depth octets = some read) :
    readOpenItems fuel deeper octets = some read := by
  cases fuel with
  | zero =>
    rw [readOpenItems] at h
    cases h
  | succ fuel =>
    unfold readOpenItems at h ⊢
    split at h
    · exact h
    · obtain ⟨item, hitem, h⟩ := Option.bind_eq_some_iff.mp h
      obtain ⟨items, hitems, h⟩ := Option.bind_eq_some_iff.mp h
      rw [readItem_deeper fuel hle hitem]
      simp only [Option.bind_eq_bind, Option.bind_some, readOpenItems_deeper fuel hle hitems]
      exact h
termination_by fuel

private theorem readEntries_deeper (fuel : Nat) {depth deeper : Nat} (hle : depth ≤ deeper) {count : Nat}
    {octets : Octets} {read : List (Cbor × Cbor) × Octets}
    (h : readEntries fuel depth count octets = some read) :
    readEntries fuel deeper count octets = some read := by
  cases fuel with
  | zero =>
    rw [readEntries] at h
    cases h
  | succ fuel =>
    cases count with
    | zero =>
      rw [readEntries] at h ⊢
      exact h
    | succ count =>
      rw [readEntries] at h ⊢
      obtain ⟨key, hkey, h⟩ := Option.bind_eq_some_iff.mp h
      obtain ⟨value, hvalue, h⟩ := Option.bind_eq_some_iff.mp h
      obtain ⟨entries, hentries, h⟩ := Option.bind_eq_some_iff.mp h
      rw [readItem_deeper fuel hle hkey]
      simp only [Option.bind_eq_bind, Option.bind_some, readItem_deeper fuel hle hvalue,
        readEntries_deeper fuel hle hentries]
      exact h
termination_by fuel

private theorem readOpenEntries_deeper (fuel : Nat) {depth deeper : Nat} (hle : depth ≤ deeper) {octets : Octets}
    {read : List (Cbor × Cbor) × Octets} (h : readOpenEntries fuel depth octets = some read) :
    readOpenEntries fuel deeper octets = some read := by
  cases fuel with
  | zero =>
    rw [readOpenEntries] at h
    cases h
  | succ fuel =>
    unfold readOpenEntries at h ⊢
    split at h
    · exact h
    · obtain ⟨key, hkey, h⟩ := Option.bind_eq_some_iff.mp h
      obtain ⟨value, hvalue, h⟩ := Option.bind_eq_some_iff.mp h
      obtain ⟨entries, hentries, h⟩ := Option.bind_eq_some_iff.mp h
      rw [readItem_deeper fuel hle hkey]
      simp only [Option.bind_eq_bind, Option.bind_some, readItem_deeper fuel hle hvalue,
        readOpenEntries_deeper fuel hle hentries]
      exact h
termination_by fuel

end

/-- Whatever is read from the octets of an item is the item, however deep it is. -/
theorem eq_of_read?_write {item : Cbor} (hitem : item.Encodable) {read : Cbor × Octets}
    (h : read? item.write = some read) : read = (item, []) := by
  have hwhole := readItem_write item item.depth (2 * item.write.length + 2) [] hitem (Nat.le_refl _) (by omega)
  rw [List.append_nil] at hwhole
  have hshallow := readItem_deeper _ (Nat.le_max_left maxDepth item.depth) h
  have hdeep := readItem_deeper _ (Nat.le_max_right maxDepth item.depth) hwhole
  rw [hshallow] at hdeep
  exact Option.some.inj hdeep

end CborReader
end FieldLink
