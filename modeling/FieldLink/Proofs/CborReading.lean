import FieldLink.CborReader
import FieldLink.Proofs.Utf8Text

/-!
# What a CBOR reader can have read

Each item has a head, and the head tells what comes behind it: a scalar, a text, the items of an array, the
entries of a map, or the item that a tag stands in front of. Whatever is read is taken from the front, so that
what is left is shorter.
-/

namespace FieldLink

/-- An item without a text, an array or a map inside. -/
def Cbor.isScalar : Cbor → Bool
  | .text _ | .array _ | .map _ => false
  | .tagged _ item => item.isScalar
  | _ => true

namespace CborReader

private theorem length_of_split? {n : Nat} {octets front rest : Octets}
    (h : Octets.split? n octets = some (front, rest)) : front.length + rest.length = octets.length := by
  rw [(Octets.append_of_split? h).1, List.length_append]

/-- A head is an octet that begins with the major type, and the octets of its argument. -/
theorem exists_of_readHead {octets rest : Octets} {head : Head} (h : readHead octets = some (head, rest)) :
    ∃ first argument, octets = first :: (argument ++ rest) ∧ head.major = first.toNat / 32 := by
  cases octets with
  | nil => cases h
  | cons first tail =>
    have hwide {width : Nat} (h : (Octets.split? width tail).map (fun read =>
        ((⟨first.toNat / 32, first.toNat % 32, some read.1.toNat⟩ : Head), read.2)) = some (head, rest)) :
        ∃ first' argument, first :: tail = first' :: (argument ++ rest) ∧ head.major = first'.toNat / 32 := by
      obtain ⟨⟨front, behind⟩, hsplit, h⟩ := Option.map_eq_some_iff.mp h
      cases h
      exact ⟨first, front, congrArg (first :: ·) (Octets.append_of_split? hsplit).1, rfl⟩
    simp only [readHead] at h
    split at h
    · cases h
      exact ⟨first, [], rfl, rfl⟩
    · split at h
      · exact hwide h
      · split at h
        · exact hwide h
        · split at h
          · exact hwide h
          · split at h
            · exact hwide h
            · split at h
              · cases h
                exact ⟨first, [], rfl, rfl⟩
              · cases h

theorem length_lt_of_readHead {octets rest : Octets} {head : Head} (h : readHead octets = some (head, rest)) :
    rest.length < octets.length := by
  obtain ⟨first, argument, rfl, -⟩ := exists_of_readHead h
  rw [List.length_cons, List.length_append]
  omega

private theorem length_le_of_readPieces {major fuel inside : Nat} {octets rest : Octets} {pieces : List Octets}
    (h : readPieces major fuel inside octets = some (pieces, rest)) :
    pieces.flatten.length + rest.length ≤ octets.length := by
  induction fuel generalizing inside octets pieces with
  | zero => cases h
  | succ fuel ih =>
    rw [readPieces] at h
    obtain ⟨⟨head, tail⟩, hhead, h⟩ := Option.bind_eq_some_iff.mp h
    have hlt := length_lt_of_readHead hhead
    simp only at h
    split at h
    · split at h
      · have := ih h
        omega
      · split at h
        · split at h
          · cases h
            exact Nat.le_of_lt (by simpa using hlt)
          · have := ih h
            omega
        · cases h
    · split at h
      · obtain ⟨⟨piece, behind⟩, hpiece, h⟩ := Option.bind_eq_some_iff.mp h
        obtain ⟨⟨others, last⟩, hothers, h⟩ := Option.bind_eq_some_iff.mp h
        cases h
        have hfirst := length_of_split? hpiece
        have hmore := ih hothers
        dsimp only at hmore
        simp only [List.flatten_cons, List.length_append]
        omega
      · cases h

private theorem length_le_of_readString {fuel : Nat} {head : Head} {octets rest : Octets} {pieces : List Octets}
    (h : readString fuel head octets = some (pieces, rest)) :
    pieces.flatten.length + rest.length ≤ octets.length := by
  rw [readString] at h
  split at h
  · obtain ⟨⟨piece, behind⟩, hpiece, h⟩ := Option.map_eq_some_iff.mp h
    cases h
    have := length_of_split? hpiece
    simpa using Nat.le_of_eq this
  · exact length_le_of_readPieces h

private theorem encode_of_mapM_decode? {pieces : List Octets} {parts : List (List Char)}
    (h : pieces.mapM Utf8.decode? = some parts) : Utf8.encode parts.flatten = pieces.flatten := by
  induction pieces generalizing parts with
  | nil =>
    cases h
    rfl
  | cons piece pieces ih =>
    rw [List.mapM_cons] at h
    obtain ⟨text, htext, h⟩ := Option.bind_eq_some_iff.mp h
    obtain ⟨others, hothers, h⟩ := Option.bind_eq_some_iff.mp h
    cases h
    rw [List.flatten_cons, List.flatten_cons, Utf8.encode_append, Utf8.encode_of_decode? htext, ih hothers]

private theorem exists_text_of_textOf? {pieces : List Octets} {item : Cbor} (h : textOf? pieces = some item) :
    ∃ s, item = .text s ∧ Utf8.encode s.toList = pieces.flatten := by
  rw [textOf?] at h
  obtain ⟨parts, hparts, h⟩ := Option.bind_eq_some_iff.mp h
  cases h
  exact ⟨_, rfl, by rw [String.toList_ofList, encode_of_mapM_decode? hparts]⟩

private theorem isScalar_of_bigNumber? {negative : Bool} {octets : Octets} {item : Cbor}
    (h : bigNumber? negative octets = some item) : item.isScalar = true := by
  simp only [bigNumber?] at h
  split at h
  · cases h
  · split at h <;> cases h <;> rfl

private theorem isScalar_of_simple? {info n : Nat} {item : Cbor} (h : simple? info n = some item) :
    item.isScalar = true := by
  rw [simple?] at h
  repeat' split at h
  all_goals cases h <;> rfl

private theorem length_le_of_readBigNumber {tag : Nat} {octets big rest : Octets}
    (h : readBigNumber tag octets = some (some (big, rest))) : rest.length ≤ octets.length := by
  rw [readBigNumber] at h
  split at h
  · split at h
    · next hhead =>
      split at h
      · have hlt := length_lt_of_readHead hhead
        have := length_of_split? (Option.some.inj h)
        omega
      · cases h
    · cases h
  · cases h

/-- What stands behind the head of an item. An array, a map and a tag each go one level down. -/
inductive Body (fuel : Nat) (head : Head) (tail rest : Octets) : Nat → Cbor → Prop
  | scalar {depth : Nat} {item : Cbor} (hscalar : item.isScalar = true) (hlength : rest.length ≤ tail.length) :
    Body fuel head tail rest depth item
  | text {depth : Nat} {s : String} (hlength : (Utf8.encode s.toList).length + rest.length ≤ tail.length) :
    Body fuel head tail rest depth (.text s)
  | array {depth n : Nat} {items : List Cbor} (hitems : readItems fuel depth n tail = some (items, rest)) :
    Body fuel head tail rest (depth + 1) (.array items)
  | openArray {depth : Nat} {items : List Cbor} (hitems : readOpenItems fuel depth tail = some (items, rest)) :
    Body fuel head tail rest (depth + 1) (.array items)
  | map {depth n : Nat} {entries : List (Cbor × Cbor)} (hmajor : head.major = 5)
    (hentries : readEntries fuel depth n tail = some (entries, rest)) :
    Body fuel head tail rest (depth + 1) (.map entries)
  | openMap {depth : Nat} {entries : List (Cbor × Cbor)} (hmajor : head.major = 5)
    (hentries : readOpenEntries fuel depth tail = some (entries, rest)) :
    Body fuel head tail rest (depth + 1) (.map entries)
  | tagged {depth tag : Nat} {item : Cbor} (hitem : readItem fuel depth tail = some (item, rest)) :
    Body fuel head tail rest (depth + 1) (.tagged tag item)

theorem body_of_readItem {fuel depth : Nat} {octets rest : Octets} {item : Cbor}
    (h : readItem (fuel + 1) depth octets = some (item, rest)) :
    ∃ head tail, readHead octets = some (head, tail) ∧ Body fuel head tail rest depth item := by
  rw [readItem] at h
  obtain ⟨⟨⟨major, info, argument⟩, tail⟩, hhead, h⟩ := Option.bind_eq_some_iff.mp h
  refine ⟨_, tail, hhead, ?_⟩
  simp only [Option.bind_eq_bind] at h
  split at h
  · cases h
    exact .scalar rfl (Nat.le_refl _)
  · cases h
    exact .scalar rfl (Nat.le_refl _)
  · obtain ⟨⟨pieces, behind⟩, hpieces, h⟩ := Option.map_eq_some_iff.mp h
    cases h
    exact .scalar rfl (Nat.le_trans (Nat.le_add_left _ _) (length_le_of_readString hpieces))
  · obtain ⟨⟨pieces, behind⟩, hpieces, h⟩ := Option.bind_eq_some_iff.mp h
    obtain ⟨text, htext, h⟩ := Option.bind_eq_some_iff.mp h
    cases h
    obtain ⟨s, rfl, hoctets⟩ := exists_text_of_textOf? htext
    refine .text ?_
    rw [hoctets]
    exact length_le_of_readString hpieces
  · obtain ⟨⟨items, behind⟩, hitems, h⟩ := Option.map_eq_some_iff.mp h
    cases h
    exact .array hitems
  · obtain ⟨⟨items, behind⟩, hitems, h⟩ := Option.map_eq_some_iff.mp h
    cases h
    exact .openArray hitems
  · obtain ⟨⟨entries, behind⟩, hentries, h⟩ := Option.map_eq_some_iff.mp h
    cases h
    exact .map rfl hentries
  · obtain ⟨⟨entries, behind⟩, hentries, h⟩ := Option.map_eq_some_iff.mp h
    cases h
    exact .openMap rfl hentries
  · split at h
    · next hbig _ =>
      obtain ⟨⟨big, behind⟩, hread, h⟩ := Option.bind_eq_some_iff.mp h
      obtain ⟨number, hnumber, h⟩ := Option.bind_eq_some_iff.mp h
      cases h
      rw [hread] at hbig
      exact .scalar (isScalar_of_bigNumber? hnumber) (length_le_of_readBigNumber hbig)
    · obtain ⟨⟨inner, behind⟩, hinner, h⟩ := Option.map_eq_some_iff.mp h
      cases h
      exact .tagged hinner
    · cases h
  · obtain ⟨simple, hsimple, h⟩ := Option.map_eq_some_iff.mp h
    cases h
    exact .scalar (isScalar_of_simple? hsimple) (Nat.le_refl _)
  · cases h

end CborReader
end FieldLink
