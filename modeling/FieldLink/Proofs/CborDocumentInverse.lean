import FieldLink.CborDocument
import FieldLink.Proofs.CborInverse
import FieldLink.Proofs.DocumentShape
import FieldLink.Proofs.Outcomes

/-!
# Documents and their CBOR items

The item that stands for a document has octets, is as deep as the document, and stands for nothing else. A float
that would come back as another number has no item.
-/

namespace FieldLink

theorem shortestDecimal_of_asSingle {x : Double} {s : Single} (h : asSingle x = some s) :
    shortestDecimal (.finite s) = .finite x := by
  rw [asSingle, Option.bind_eq_bind, Option.bind_eq_some_iff] at h
  obtain ⟨narrow, -, hnarrow⟩ := h
  split at hnarrow
  · next hvalue =>
    cases hnarrow
    exact hvalue
  · cases hnarrow

private theorem floatToDocument_of_floatToCbor {x : Double} {item : Cbor} (h : floatToCbor x = .ok item) :
    ∃ y, item = .float y ∧ floatToDocument y = .ok (.float x) := by
  rw [floatToCbor] at h
  cases hsingle : asSingle x with
  | some s =>
    rw [hsingle, Option.elim_some] at h
    obtain ⟨y, hconvert, hexactly⟩ := FloatValue.convert_single s
    rw [hconvert] at h
    cases h
    refine ⟨.finite y, rfl, ?_⟩
    rw [floatToDocument, widened, hexactly, Option.elim_some, shortestDecimal_of_asSingle hsingle]
    rfl
  | none =>
    rw [hsingle, Option.elim_none] at h
    split at h
    · cases h
    · next hnot =>
      cases h
      refine ⟨.finite x, rfl, ?_⟩
      rw [floatToDocument, widened, Option.not_isSome_iff_eq_none.mp hnot, Option.elim_none]
      rfl

namespace Cbor

theorem exists_of_itemsToDocuments_cons {item : Cbor} {items : List Cbor} {documents : List Document}
    (h : itemsToDocuments (item :: items) = .ok documents) :
    ∃ d others, item.toDocument = .ok d ∧ itemsToDocuments items = .ok others ∧ documents = d :: others := by
  rw [itemsToDocuments] at h
  obtain ⟨d, hd, h⟩ := exists_of_bind_eq_ok h
  obtain ⟨others, hothers, h⟩ := exists_of_bind_eq_ok h
  cases h
  exact ⟨d, others, hd, hothers, rfl⟩

/-- Every key of what is read as an object is text. -/
theorem exists_of_entriesToMembers_cons {key value : Cbor} {entries : List (Cbor × Cbor)}
    {members : List (String × Document)} (h : entriesToMembers ((key, value) :: entries) = .ok members) :
    ∃ name d others, key = .text name ∧ value.toDocument = .ok d ∧ entriesToMembers entries = .ok others ∧
      members = (name, d) :: others := by
  cases key with
  | text name =>
    rw [entriesToMembers] at h
    obtain ⟨spelt, hspelt, h⟩ := exists_of_bind_eq_ok h
    obtain ⟨d, hd, h⟩ := exists_of_bind_eq_ok h
    obtain ⟨others, hothers, h⟩ := exists_of_bind_eq_ok h
    cases hspelt
    cases h
    exact ⟨name, d, others, rfl, hd, hothers, rfl⟩
  | null | bool b | integer n | float v | bytes octets | array items | map entries | tagged tag item => cases h

end Cbor

/-- An item that stands for a document. -/
structure Cbor.Represents (item : Cbor) (d : Document) : Prop where
  encodable : item.Encodable
  depth : item.depth = d.depth
  toDocument : item.toDocument = .ok d

namespace Document

theorem exists_of_toCbor_array {items : List Document} {item : Cbor} (h : (array items).toCbor = .ok item) :
    ∃ written, itemsToCbor items = .ok written ∧ item = .array written := by
  rw [toCbor] at h
  obtain ⟨written, hwritten, hitem⟩ := exists_of_bind_eq_ok h
  cases hitem
  exact ⟨written, hwritten, rfl⟩

theorem exists_of_toCbor_object {members : List (String × Document)} {item : Cbor}
    (h : (object members).toCbor = .ok item) : ∃ written, membersToCbor members = .ok written ∧ item = .map written := by
  rw [toCbor] at h
  obtain ⟨written, hwritten, hitem⟩ := exists_of_bind_eq_ok h
  cases hitem
  exact ⟨written, hwritten, rfl⟩

theorem exists_of_itemsToCbor_cons {item : Document} {items : List Document} {written : List Cbor}
    (h : itemsToCbor (item :: items) = .ok written) :
    ∃ first others, item.toCbor = .ok first ∧ itemsToCbor items = .ok others ∧ written = first :: others := by
  rw [itemsToCbor] at h
  obtain ⟨first, hfirst, h⟩ := exists_of_bind_eq_ok h
  obtain ⟨others, hothers, h⟩ := exists_of_bind_eq_ok h
  cases h
  exact ⟨first, others, hfirst, hothers, rfl⟩

theorem exists_of_membersToCbor_cons {name : String} {value : Document} {members : List (String × Document)}
    {written : List (Cbor × Cbor)} (h : membersToCbor ((name, value) :: members) = .ok written) :
    ∃ first others, value.toCbor = .ok first ∧ membersToCbor members = .ok others ∧
      written = (.text name, first) :: others := by
  rw [membersToCbor] at h
  obtain ⟨first, hfirst, h⟩ := exists_of_bind_eq_ok h
  obtain ⟨others, hothers, h⟩ := exists_of_bind_eq_ok h
  cases h
  exact ⟨first, others, hfirst, hothers, rfl⟩

mutual

theorem represents_of_toCbor (d : Document) {item : Cbor} (hnames : d.HasDistinctNames) (hfits : d.Fits)
    (h : d.toCbor = .ok item) : item.Represents d := by
  cases d with
  | null =>
    cases h
    exact ⟨trivial, rfl, rfl⟩
  | bool value =>
    cases h
    exact ⟨trivial, rfl, rfl⟩
  | integer n =>
    cases h
    have hlower := n.lower
    have hupper := n.upper
    refine ⟨?_, rfl, ?_⟩
    · rw [Cbor.Encodable]
      omega
    · rw [Cbor.toDocument, Integer.ofInt?_val]
  | float x =>
    rw [toCbor] at h
    obtain ⟨y, rfl, hvalue⟩ := floatToDocument_of_floatToCbor h
    exact ⟨trivial, rfl, hvalue⟩
  | text s =>
    cases h
    exact ⟨hfits, rfl, rfl⟩
  | array items =>
    rw [HasDistinctNames] at hnames
    rw [Fits] at hfits
    obtain ⟨read, hread, rfl⟩ := exists_of_toCbor_array h
    obtain ⟨hlength, hencodable, hdepth, hdocuments⟩ := represents_of_itemsToCbor items hnames hfits.2 hread
    refine ⟨⟨?_, hencodable⟩, ?_, ?_⟩
    · rw [hlength]
      exact hfits.1
    · rw [Cbor.depth, hdepth, depth]
    · rw [Cbor.toDocument, hdocuments]
      rfl
  | object members =>
    rw [HasDistinctNames] at hnames
    rw [Fits] at hfits
    obtain ⟨read, hread, rfl⟩ := exists_of_toCbor_object h
    obtain ⟨hlength, hencodable, hdepth, hmembers⟩ :=
      represents_of_membersToCbor members hnames.2 hfits.2 hread
    refine ⟨⟨?_, hencodable⟩, ?_, ?_⟩
    · rw [hlength]
      exact hfits.1
    · rw [Cbor.depth, hdepth, depth]
    · rw [Cbor.toDocument, hmembers]
      simp only [bind, Except.bind, pure, Except.pure, mergeMembers_of_nodup hnames.1]

private theorem represents_of_itemsToCbor (items : List Document) {read : List Cbor}
    (hnames : ItemsHaveDistinctNames items) (hfits : ItemsFit items) (h : itemsToCbor items = .ok read) :
    read.length = items.length ∧ Cbor.ItemsEncodable read ∧ Cbor.itemsDepth read = itemsDepth items ∧
      Cbor.itemsToDocuments read = .ok items := by
  cases items with
  | nil =>
    cases h
    exact ⟨rfl, trivial, rfl, rfl⟩
  | cons item items =>
    rw [ItemsHaveDistinctNames] at hnames
    rw [ItemsFit] at hfits
    obtain ⟨first, others, hfirst, hothers, rfl⟩ := exists_of_itemsToCbor_cons h
    obtain ⟨hencodable, hdepth, hdocument⟩ := represents_of_toCbor item hnames.1 hfits.1 hfirst
    obtain ⟨hlength, hencodables, hdepths, hdocuments⟩ :=
      represents_of_itemsToCbor items hnames.2 hfits.2 hothers
    refine ⟨?_, ⟨hencodable, hencodables⟩, ?_, ?_⟩
    · rw [List.length_cons, List.length_cons, hlength]
    · rw [Cbor.itemsDepth, itemsDepth, hdepth, hdepths]
    · rw [Cbor.itemsToDocuments, hdocument, hdocuments]
      rfl

private theorem represents_of_membersToCbor (members : List (String × Document)) {read : List (Cbor × Cbor)}
    (hnames : MembersHaveDistinctNames members) (hfits : MembersFit members)
    (h : membersToCbor members = .ok read) :
    read.length = members.length ∧ Cbor.EntriesEncodable read ∧ Cbor.entriesDepth read = membersDepth members ∧
      Cbor.entriesToMembers read = .ok members := by
  cases members with
  | nil =>
    cases h
    exact ⟨rfl, trivial, rfl, rfl⟩
  | cons member members =>
    obtain ⟨name, value⟩ := member
    rw [MembersHaveDistinctNames] at hnames
    rw [MembersFit] at hfits
    obtain ⟨first, others, hfirst, hothers, rfl⟩ := exists_of_membersToCbor_cons h
    obtain ⟨hencodable, hdepth, hdocument⟩ := represents_of_toCbor value hnames.1 hfits.2.1 hfirst
    obtain ⟨hlength, hencodables, hdepths, hmembers⟩ :=
      represents_of_membersToCbor members hnames.2 hfits.2.2 hothers
    refine ⟨?_, ⟨hfits.1, hencodable, hencodables⟩, ?_, ?_⟩
    · rw [List.length_cons, List.length_cons, hlength]
    · have hname : (Cbor.text name).depth = 0 := rfl
      rw [Cbor.entriesDepth, membersDepth, hdepth, hdepths, hname, Nat.zero_max]
    · rw [Cbor.entriesToMembers, hdocument, hmembers]
      rfl

end

/-- The octets of a document in CBOR are read as the one item that stands for it. -/
theorem read?_of_writeCbor {d : Document} {octets : Octets} (hnames : d.HasDistinctNames) (hfits : d.Fits)
    (hdepth : d.depth ≤ CborReader.maxDepth) (h : d.writeCbor = .ok octets) :
    ∃ item, d.toCbor = .ok item ∧ octets = item.write ∧ CborReader.read? octets = some (item, []) ∧
      item.toDocument = .ok d := by
  rw [writeCbor] at h
  obtain ⟨item, hitem, hwrite⟩ := exists_of_bind_eq_ok h
  cases hwrite
  have hrepresents := represents_of_toCbor d hnames hfits hitem
  refine ⟨item, hitem, rfl, ?_, hrepresents.toDocument⟩
  apply CborReader.read?_write hrepresents.encodable
  rw [hrepresents.depth]
  exact hdepth

end Document
end FieldLink
