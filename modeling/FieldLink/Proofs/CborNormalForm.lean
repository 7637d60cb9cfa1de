import FieldLink.Proofs.CborReproduction
import FieldLink.Proofs.FormatSniffing

/-!
# A normal form of what comes in as CBOR

What comes in as CBOR can go out as CBOR, in a form that comes in as the same document. The reader bounds what
it reads: no item lies deeper than it may, and no length in one is greater than that of the octets. A document
that is made of such an item keeps these bounds, has every name once, and no float in it is one that CBOR
refuses.
-/

namespace FieldLink

namespace Cbor

mutual

/-- How many arrays and maps stand inside one another. Tags count for nothing, as in a document. -/
def nesting : Cbor → Nat
  | .array items => itemsNesting items + 1
  | .map entries => entriesNesting entries + 1
  | .tagged _ item => nesting item
  | _ => 0

def itemsNesting : List Cbor → Nat
  | [] => 0
  | item :: rest => max (nesting item) (itemsNesting rest)

def entriesNesting : List (Cbor × Cbor) → Nat
  | [] => 0
  | (key, value) :: rest => max (max (nesting key) (nesting value)) (entriesNesting rest)

end

mutual

def longest : Cbor → Nat
  | .text s => (Utf8.encode s.toList).length
  | .array items => max items.length (itemsLongest items)
  | .map entries => max entries.length (entriesLongest entries)
  | .tagged _ item => longest item
  | _ => 0

def itemsLongest : List Cbor → Nat
  | [] => 0
  | item :: rest => max (longest item) (itemsLongest rest)

def entriesLongest : List (Cbor × Cbor) → Nat
  | [] => 0
  | (key, value) :: rest => max (max (longest key) (longest value)) (entriesLongest rest)

end

private theorem bounds_of_isScalar (item : Cbor) (h : item.isScalar = true) : item.nesting = 0 ∧ item.longest = 0 := by
  cases item with
  | tagged tag inner => exact bounds_of_isScalar inner h
  | text s | array items | map entries => cases h
  | null | bool value | integer n | float v | bytes octets => exact ⟨rfl, rfl⟩

end Cbor

namespace CborReader

mutual

/-- An item takes up octets, lies no deeper than it may, and has no length above that of the octets. -/
theorem bounds_of_readItem (fuel : Nat) {depth : Nat} {octets rest : Octets} {item : Cbor}
    (h : readItem fuel depth octets = some (item, rest)) :
    rest.length < octets.length ∧ item.nesting ≤ depth ∧ item.longest ≤ octets.length := by
  cases fuel with
  | zero =>
    rw [readItem] at h
    cases h
  | succ fuel =>
    obtain ⟨head, tail, hhead, hbody⟩ := body_of_readItem h
    have hlt := length_lt_of_readHead hhead
    cases hbody with
    | scalar hscalar hlength =>
      obtain ⟨hnesting, hlongest⟩ := Cbor.bounds_of_isScalar item hscalar
      omega
    | text hlength =>
      simp only [Cbor.nesting, Cbor.longest]
      omega
    | array hitems =>
      have := bounds_of_readItems fuel hitems
      simp only [Cbor.nesting, Cbor.longest]
      omega
    | openArray hitems =>
      have := bounds_of_readOpenItems fuel hitems
      simp only [Cbor.nesting, Cbor.longest]
      omega
    | map hmajor hentries =>
      have := bounds_of_readEntries fuel hentries
      simp only [Cbor.nesting, Cbor.longest]
      omega
    | openMap hmajor hentries =>
      have := bounds_of_readOpenEntries fuel hentries
      simp only [Cbor.nesting, Cbor.longest]
      omega
    | tagged hitem =>
      have := bounds_of_readItem fuel hitem
      simp only [Cbor.nesting, Cbor.longest]
      omega
termination_by fuel

private theorem bounds_of_readItems (fuel : Nat) {depth count : Nat} {octets rest : Octets} {items : List Cbor}
    (h : readItems fuel depth count octets = some (items, rest)) :
    items.length + rest.length ≤ octets.length ∧ Cbor.itemsNesting items ≤ depth ∧
      Cbor.itemsLongest items ≤ octets.length := by
  cases fuel with
  | zero =>
    rw [readItems] at h
    cases h
  | succ fuel =>
    cases count with
    | zero =>
      rw [readItems] at h
      cases h
      exact ⟨Nat.le_of_eq (Nat.zero_add _), Nat.zero_le _, Nat.zero_le _⟩
    | succ count =>
      rw [readItems] at h
      obtain ⟨⟨item, tail⟩, hitem, h⟩ := Option.bind_eq_some_iff.mp h
      obtain ⟨⟨items, behind⟩, hitems, h⟩ := Option.bind_eq_some_iff.mp h
      cases h
      have hfirst := bounds_of_readItem fuel hitem
      have hothers := bounds_of_readItems fuel hitems
      simp only [List.length_cons, Cbor.itemsNesting, Cbor.itemsLongest]
      omega
termination_by fuel

private theorem bounds_of_readOpenItems (fuel : Nat) {depth : Nat} {octets rest : Octets} {items : List Cbor}
    (h : readOpenItems fuel depth octets = some (items, rest)) :
    items.length + rest.length ≤ octets.length ∧ Cbor.itemsNesting items ≤ depth ∧
      Cbor.itemsLongest items ≤ octets.length := by
  cases fuel with
  | zero =>
    rw [readOpenItems] at h
    cases h
  | succ fuel =>
    unfold readOpenItems at h
    split at h
    · cases h
      rw [List.length_cons, List.length_nil, Cbor.itemsNesting, Cbor.itemsLongest]
      omega
    · obtain ⟨⟨item, tail⟩, hitem, h⟩ := Option.bind_eq_some_iff.mp h
      obtain ⟨⟨items, behind⟩, hitems, h⟩ := Option.bind_eq_some_iff.mp h
      cases h
      have hfirst := bounds_of_readItem fuel hitem
      have hothers := bounds_of_readOpenItems fuel hitems
      simp only [List.length_cons, Cbor.itemsNesting, Cbor.itemsLongest]
      omega
termination_by fuel

private theorem bounds_of_readEntries (fuel : Nat) {depth count : Nat} {octets rest : Octets}
    {entries : List (Cbor × Cbor)} (h : readEntries fuel depth count octets = some (entries, rest)) :
    entries.length + rest.length ≤ octets.length ∧ Cbor.entriesNesting entries ≤ depth ∧
      Cbor.entriesLongest entries ≤ octets.length := by
  cases fuel with
  | zero =>
    rw [readEntries] at h
    cases h
  | succ fuel =>
    cases count with
    | zero =>
      rw [readEntries] at h
      cases h
      exact ⟨Nat.le_of_eq (Nat.zero_add _), Nat.zero_le _, Nat.zero_le _⟩
    | succ count =>
      rw [readEntries] at h
      obtain ⟨⟨key, afterKey⟩, hkey, h⟩ := Option.bind_eq_some_iff.mp h
      obtain ⟨⟨value, tail⟩, hvalue, h⟩ := Option.bind_eq_some_iff.mp h
      obtain ⟨⟨entries, behind⟩, hentries, h⟩ := Option.bind_eq_some_iff.mp h
      cases h
      have hfirst := bounds_of_readItem fuel hkey
      have hsecond := bounds_of_readItem fuel hvalue
      have hothers := bounds_of_readEntries fuel hentries
      simp only [List.length_cons, Cbor.entriesNesting, Cbor.entriesLongest]
      omega
termination_by fuel

private theorem bounds_of_readOpenEntries (fuel : Nat) {depth : Nat} {octets rest : Octets}
    {entries : List (Cbor × Cbor)} (h : readOpenEntries fuel depth octets = some (entries, rest)) :
    entries.length + rest.length ≤ octets.length ∧ Cbor.entriesNesting entries ≤ depth ∧
      Cbor.entriesLongest entries ≤ octets.length := by
  cases fuel with
  | zero =>
    rw [readOpenEntries] at h
    cases h
  | succ fuel =>
    unfold readOpenEntries at h
    split at h
    · cases h
      rw [List.length_cons, List.length_nil, Cbor.entriesNesting, Cbor.entriesLongest]
      omega
    · obtain ⟨⟨key, afterKey⟩, hkey, h⟩ := Option.bind_eq_some_iff.mp h
      obtain ⟨⟨value, tail⟩, hvalue, h⟩ := Option.bind_eq_some_iff.mp h
      obtain ⟨⟨entries, behind⟩, hentries, h⟩ := Option.bind_eq_some_iff.mp h
      cases h
      have hfirst := bounds_of_readItem fuel hkey
      have hsecond := bounds_of_readItem fuel hvalue
      have hothers := bounds_of_readOpenEntries fuel hentries
      simp only [List.length_cons, Cbor.entriesNesting, Cbor.entriesLongest]
      omega
termination_by fuel

end

end CborReader

private theorem exists_floatToCbor_of_not_exactly {x : Double} (h : x.exactly? .single = none) :
    ∃ item, floatToCbor x = .ok item := by
  rw [floatToCbor, h]
  cases asSingle x with
  | none => exact ⟨_, rfl⟩
  | some s => exact ⟨_, rfl⟩

/-- The one single that does not come back from its digits goes out as a double, which is no single. -/
theorem shortestDecimal_misread (s : Single) (hs : s.index = FloatFormat.misreadSingle) :
    ∃ y, shortestDecimal (.finite s) = .finite y ∧ y.exactly? .single = none := by
  have hdouble : ∀ negative : Bool,
      (shortestDecimal (.finite ⟨negative, FloatFormat.misreadSingle, by decide⟩)).finite?.any
        (fun y => (y.exactly? .single).isNone) = true := by decide +kernel
  obtain ⟨negative, index, hlt⟩ := s
  obtain rfl : index = FloatFormat.misreadSingle := hs
  obtain ⟨y, hy, hnone⟩ := (Option.any_eq_true _ _).mp (hdouble negative)
  exact ⟨y, FloatValue.finite?_eq_some_iff.mp hy, Option.isNone_iff_eq_none.mp hnone⟩

private theorem exists_floatToCbor_of_floatToDocument {v : FloatValue .double} {d : Document}
    (h : floatToDocument v = .ok d) : ∃ y item, d = .float y ∧ floatToCbor y = .ok item := by
  cases v with
  | infinite negative => cases h
  | invalid => cases h
  | finite x =>
    obtain ⟨y, hy, hkeeps⟩ := floatToDocument_finite x
    obtain rfl : .float y = d := by
      rw [h] at hy
      exact (Except.ok.inj hy).symm
    refine ⟨y, ?_⟩
    suffices hwritten : ∃ item, floatToCbor y = .ok item by
      obtain ⟨item, hitem⟩ := hwritten
      exact ⟨item, rfl, hitem⟩
    rw [floatToDocument, widened] at h
    cases hexactly : x.exactly? .single with
    | none =>
      rw [hexactly, Option.elim_none] at h
      cases h
      exact exists_floatToCbor_of_not_exactly hexactly
    | some s =>
      by_cases hmisread : s.index = FloatFormat.misreadSingle
      · obtain ⟨z, hz, hnone⟩ := shortestDecimal_misread s hmisread
        rw [hexactly, Option.elim_some, hz] at h
        cases h
        exact exists_floatToCbor_of_not_exactly hnone
      · exact ⟨_, hkeeps.mpr ((keepsWidth_of_exactly? hexactly).mpr hmisread)⟩

namespace Document

private theorem exists_itemsToCbor {items : List Document} (h : ∀ item ∈ items, ∃ written, item.toCbor = .ok written) :
    ∃ written, itemsToCbor items = .ok written := by
  induction items with
  | nil => exact ⟨[], rfl⟩
  | cons item items ih =>
    obtain ⟨first, hfirst⟩ := h item List.mem_cons_self
    obtain ⟨others, hothers⟩ := ih fun x hx => h x (List.mem_cons_of_mem _ hx)
    refine ⟨first :: others, ?_⟩
    rw [itemsToCbor, hfirst, hothers]
    rfl

theorem exists_membersToCbor {members : List (String × Document)}
    (h : ∀ member ∈ members, ∃ written, member.2.toCbor = .ok written) :
    ∃ written, membersToCbor members = .ok written := by
  induction members with
  | nil => exact ⟨[], rfl⟩
  | cons member members ih =>
    obtain ⟨first, hfirst⟩ := h member List.mem_cons_self
    obtain ⟨others, hothers⟩ := ih fun x hx => h x (List.mem_cons_of_mem _ hx)
    refine ⟨(.text member.1, first) :: others, ?_⟩
    rw [membersToCbor, hfirst, hothers]
    rfl

end Document

namespace Cbor

mutual

theorem exists_toCbor_of_toDocument (item : Cbor) {d : Document} (h : item.toDocument = .ok d) :
    ∃ written, d.toCbor = .ok written := by
  cases item with
  | null | bool value | text s =>
    cases h
    exact ⟨_, rfl⟩
  | integer n =>
    rw [toDocument] at h
    split at h
    · cases h
      exact ⟨_, rfl⟩
    · cases h
  | float v =>
    obtain ⟨y, written, rfl, hwritten⟩ := exists_floatToCbor_of_floatToDocument h
    exact ⟨written, hwritten⟩
  | bytes octets => cases h
  | array items =>
    obtain ⟨documents, hdocuments, h⟩ := exists_of_bind_eq_ok h
    cases h
    obtain ⟨written, hwritten⟩ := Document.exists_itemsToCbor (exists_toCbor_of_itemsToDocuments items hdocuments)
    refine ⟨.array written, ?_⟩
    rw [Document.toCbor, hwritten]
    rfl
  | map entries =>
    obtain ⟨members, hmembers, h⟩ := exists_of_bind_eq_ok h
    cases h
    obtain ⟨written, hwritten⟩ := Document.exists_membersToCbor fun member hmem =>
      exists_toCbor_of_entriesToMembers entries hmembers member (mem_of_mem_mergeMembers hmem)
    refine ⟨.map written, ?_⟩
    rw [Document.toCbor, hwritten]
    rfl
  | tagged tag item => exact exists_toCbor_of_toDocument item h

private theorem exists_toCbor_of_itemsToDocuments (items : List Cbor) {documents : List Document}
    (h : itemsToDocuments items = .ok documents) : ∀ d ∈ documents, ∃ written, d.toCbor = .ok written := by
  cases items with
  | nil =>
    cases h
    simp
  | cons item items =>
    obtain ⟨d, others, hd, hothers, rfl⟩ := exists_of_itemsToDocuments_cons h
    intro other hother
    rcases List.mem_cons.mp hother with rfl | hother
    · exact exists_toCbor_of_toDocument item hd
    · exact exists_toCbor_of_itemsToDocuments items hothers other hother

private theorem exists_toCbor_of_entriesToMembers (entries : List (Cbor × Cbor)) {members : List (String × Document)}
    (h : entriesToMembers entries = .ok members) : ∀ member ∈ members, ∃ written, member.2.toCbor = .ok written := by
  cases entries with
  | nil =>
    cases h
    simp
  | cons entry entries =>
    obtain ⟨key, value⟩ := entry
    obtain ⟨name, d, others, -, hd, hothers, rfl⟩ := exists_of_entriesToMembers_cons h
    intro other hother
    rcases List.mem_cons.mp hother with rfl | hother
    · exact exists_toCbor_of_toDocument value hd
    · exact exists_toCbor_of_entriesToMembers entries hothers other hother

end

end Cbor

namespace Document

/-- A document that is no deeper than `depth` and has octets in CBOR. -/
structure Sendable (depth : Nat) (d : Document) : Prop where
  distinct : d.HasDistinctNames
  fits : d.Fits
  depth_le : d.depth ≤ depth
  written : ∃ item, d.toCbor = .ok item

theorem Sendable.mono {depth deeper : Nat} {d : Document} (h : d.Sendable depth) (hle : depth ≤ deeper) :
    d.Sendable deeper :=
  ⟨h.distinct, h.fits, Nat.le_trans h.depth_le hle, h.written⟩

private theorem sendable_array {depth : Nat} {items : List Document} (hlength : items.length < 2 ^ 64)
    (hwritten : ∃ item, (array items).toCbor = .ok item) (h : ∀ item ∈ items, item.Sendable depth) :
    (array items).Sendable (depth + 1) := by
  have hitems : ItemsHaveDistinctNames items ∧ ItemsFit items ∧ itemsDepth items ≤ depth := by
    clear hlength hwritten
    induction items with
    | nil => exact ⟨trivial, trivial, Nat.zero_le _⟩
    | cons item items ih =>
      obtain ⟨hdistinct, hfits, hdepth, -⟩ := h item List.mem_cons_self
      obtain ⟨hdistincts, hfit, hdepths⟩ := ih fun x hx => h x (List.mem_cons_of_mem _ hx)
      exact ⟨⟨hdistinct, hdistincts⟩, ⟨hfits, hfit⟩, Nat.max_le.mpr ⟨hdepth, hdepths⟩⟩
  obtain ⟨hdistinct, hfits, hdepth⟩ := hitems
  exact ⟨hdistinct, ⟨hlength, hfits⟩, Nat.succ_le_succ hdepth, hwritten⟩

private theorem sendable_object {depth : Nat} {members : List (String × Document)}
    (hnames : (members.map Prod.fst).Nodup)
    (hlength : members.length < 2 ^ 64) (hwritten : ∃ item, (object members).toCbor = .ok item)
    (h : ∀ member ∈ members, FitsMemory member.1 ∧ member.2.Sendable depth) :
    (object members).Sendable (depth + 1) := by
  have hmembers : MembersHaveDistinctNames members ∧ MembersFit members ∧ membersDepth members ≤ depth := by
    clear hlength hnames hwritten
    induction members with
    | nil => exact ⟨trivial, trivial, Nat.zero_le _⟩
    | cons member members ih =>
      obtain ⟨hname, hdistinct, hfits, hdepth, -⟩ := h member List.mem_cons_self
      obtain ⟨hdistincts, hfit, hdepths⟩ := ih fun x hx => h x (List.mem_cons_of_mem _ hx)
      exact ⟨⟨hdistinct, hdistincts⟩, ⟨hname, hfits, hfit⟩, Nat.max_le.mpr ⟨hdepth, hdepths⟩⟩
  obtain ⟨hdistinct, hfits, hdepth⟩ := hmembers
  exact ⟨⟨hnames, hdistinct⟩, ⟨hlength, hfits⟩, Nat.succ_le_succ hdepth, hwritten⟩

end Document

namespace Cbor

mutual

theorem sendable_of_toDocument (item : Cbor) {d : Document} (h : item.toDocument = .ok d)
    (hlongest : item.longest < 2 ^ 64) : d.Sendable item.nesting := by
  cases item with
  | null =>
    cases h
    exact ⟨trivial, trivial, Nat.le_refl _, _, rfl⟩
  | bool value =>
    cases h
    exact ⟨trivial, trivial, Nat.le_refl _, _, rfl⟩
  | integer n =>
    rw [toDocument] at h
    split at h
    · cases h
      exact ⟨trivial, trivial, Nat.le_refl _, _, rfl⟩
    · cases h
  | float v =>
    obtain ⟨y, written, rfl, hwritten⟩ := exists_floatToCbor_of_floatToDocument h
    exact ⟨trivial, trivial, Nat.le_refl _, written, hwritten⟩
  | text s =>
    cases h
    exact ⟨trivial, hlongest, Nat.le_refl _, _, rfl⟩
  | bytes octets => cases h
  | array items =>
    rw [longest] at hlongest
    have hwritten := exists_toCbor_of_toDocument _ h
    obtain ⟨documents, hdocuments, h⟩ := exists_of_bind_eq_ok h
    cases h
    obtain ⟨hlength, hsendable⟩ := sendable_of_itemsToDocuments items hdocuments (by omega)
    exact Document.sendable_array (by omega) hwritten hsendable
  | map entries =>
    rw [longest] at hlongest
    have hwritten := exists_toCbor_of_toDocument _ h
    obtain ⟨members, hmembers, h⟩ := exists_of_bind_eq_ok h
    cases h
    obtain ⟨hlength, hsendable⟩ := sendable_of_entriesToMembers entries hmembers (by omega)
    obtain ⟨hnames, hmerged⟩ := nodup_mergeMembers members
    exact Document.sendable_object hnames (by omega) hwritten fun member hmem =>
      hsendable member (mem_of_mem_mergeMembers hmem)
  | tagged tag item => exact sendable_of_toDocument item h hlongest

private theorem sendable_of_itemsToDocuments (items : List Cbor) {documents : List Document}
    (h : itemsToDocuments items = .ok documents) (hlongest : itemsLongest items < 2 ^ 64) :
    documents.length = items.length ∧ ∀ d ∈ documents, d.Sendable (itemsNesting items) := by
  cases items with
  | nil =>
    cases h
    exact ⟨rfl, by simp⟩
  | cons item items =>
    rw [itemsLongest] at hlongest
    obtain ⟨d, others, hd, hothers, rfl⟩ := exists_of_itemsToDocuments_cons h
    have hfirst := sendable_of_toDocument item hd (by omega)
    obtain ⟨hlength, hrest⟩ := sendable_of_itemsToDocuments items hothers (by omega)
    refine ⟨by rw [List.length_cons, List.length_cons, hlength], ?_⟩
    intro other hother
    rw [itemsNesting]
    rcases List.mem_cons.mp hother with rfl | hother
    · exact hfirst.mono (Nat.le_max_left _ _)
    · exact (hrest other hother).mono (Nat.le_max_right _ _)

private theorem sendable_of_entriesToMembers (entries : List (Cbor × Cbor)) {members : List (String × Document)}
    (h : entriesToMembers entries = .ok members) (hlongest : entriesLongest entries < 2 ^ 64) :
    members.length = entries.length ∧
      ∀ member ∈ members, FitsMemory member.1 ∧ member.2.Sendable (entriesNesting entries) := by
  cases entries with
  | nil =>
    cases h
    exact ⟨rfl, by simp⟩
  | cons entry entries =>
    obtain ⟨key, value⟩ := entry
    obtain ⟨name, d, others, rfl, hd, hothers, rfl⟩ := exists_of_entriesToMembers_cons h
    rw [entriesLongest, longest] at hlongest
    have hfirst := sendable_of_toDocument value hd (by omega)
    obtain ⟨hlength, hrest⟩ := sendable_of_entriesToMembers entries hothers (by omega)
    refine ⟨by rw [List.length_cons, List.length_cons, hlength], ?_⟩
    intro other hother
    rw [entriesNesting]
    rcases List.mem_cons.mp hother with rfl | hother
    · refine ⟨?_, hfirst.mono (by omega)⟩
      dsimp only [FitsMemory]
      omega
    · exact ⟨(hrest other hother).1, (hrest other hother).2.mono (Nat.le_max_right _ _)⟩

end

end Cbor

theorem Document.exists_toCbor_of_mem {members : List (String × Document)} {read : List (Cbor × Cbor)}
    (h : membersToCbor members = .ok read) {name : String} {value : Document} (hmem : (name, value) ∈ members) :
    ∃ item, value.toCbor = .ok item := by
  induction members generalizing read with
  | nil => cases hmem
  | cons member members ih =>
    obtain ⟨first, others, hfirst, hothers, -⟩ := exists_of_membersToCbor_cons h
    rcases List.mem_cons.mp hmem with rfl | hrest
    · exact ⟨first, hfirst⟩
    · exact ih hothers hrest

private theorem EnvelopeField.refusal_ne_unsupported (field : EnvelopeField) (d : Option Document)
    (reason : Unsupported) : field.refusal d ≠ .unsupported reason := by
  unfold refusal
  split <;> simp

theorem Envelope.ofMembers_ne_unsupported {format : WireFormat} {members : List (String × Document)}
    {reason : Unsupported}
    (h : ∀ payload, members.lookup "payload" = some payload → ∃ octets, payload.write format = .ok octets) :
    ofMembers format members ≠ .error (.unsupported reason) := by
  intro hfailed
  obtain ⟨field, -, hrefusal⟩ := exists_isFirstRefused h hfailed
  exact field.refusal_ne_unsupported _ _ hrefusal.symm

theorem Cbor.sendable_of_read? {octets : Octets} {item : Cbor} {d : Document} (hlength : octets.length < 2 ^ 64)
    (hread : CborReader.read? octets = some (item, [])) (h : item.toDocument = .ok d) :
    d.Sendable CborReader.maxDepth := by
  obtain ⟨-, hnesting, hlongest⟩ := CborReader.bounds_of_readItem _ hread
  exact (sendable_of_toDocument item h (Nat.lt_of_le_of_lt hlongest hlength)).mono hnesting

theorem WireDocument.toDocument_cbor_eq_ok_iff {item : Cbor} {d : Document} :
    (cbor item).toDocument = .ok d ↔ item.toDocument = .ok d := by
  rw [toDocument]
  cases item.toDocument <;> simp [Except.mapError]

/-- Whatever is read as CBOR and made a document of is written as CBOR again, and what is written is read as the same
document: from there on the octets stay as they are. So no message is refused because its payload, once read, could
not be written for its CRC. -/
theorem normalForm_stable {octets : Octets} {item : Cbor} {d : Document} (hlength : octets.length < 2 ^ 64)
    (hread : WireDocument.read octets = .ok (.cbor item)) (hdocument : (WireDocument.cbor item).toDocument = .ok d) :
    (∃ written again, d.write .cbor = .ok written ∧ WireDocument.read written = .ok (.cbor again) ∧
      (WireDocument.cbor again).toDocument = .ok d ∧ again.write = written) ∧
    ∀ reason, Envelope.decode octets ≠ .error (.unsupported reason) := by
  obtain ⟨hitem, hmap⟩ := WireDocument.read_eq_cbor_iff.mp hread
  have hd := WireDocument.toDocument_cbor_eq_ok_iff.mp hdocument
  have hsendable := Cbor.sendable_of_read? hlength hitem hd
  obtain ⟨entries, rfl⟩ := Cbor.isMap_iff.mp hmap
  obtain ⟨members, hmembers, hd⟩ := exists_of_bind_eq_ok hd
  cases hd
  obtain ⟨again, hagain⟩ := hsendable.written
  have hwritten : (Document.object (mergeMembers members)).writeCbor = .ok again.write := by
    rw [Document.writeCbor, hagain]
    rfl
  obtain ⟨same, hsame, -, hback, hsamed⟩ :=
    Document.read?_of_writeCbor hsendable.distinct hsendable.fits hsendable.depth_le hwritten
  obtain rfl : same = again := Except.ok.inj (hsame.symm.trans hagain)
  obtain ⟨read, hmembersRead, hagainMap⟩ := exists_of_bind_eq_ok hagain
  cases hagainMap
  refine ⟨⟨_, _, ?_, WireDocument.read_eq_cbor_iff.mpr ⟨hback, rfl⟩,
    WireDocument.toDocument_cbor_eq_ok_iff.mpr hsamed, rfl⟩, ?_⟩
  · rw [Document.write, hwritten]
    rfl
  · intro reason hfailed
    rw [Envelope.decode, hread] at hfailed
    change (WireDocument.cbor (.map entries)).toDocument >>= _ = _ at hfailed
    rw [hdocument] at hfailed
    refine Envelope.ofMembers_ne_unsupported ?_ hfailed
    intro payload hpayload
    obtain ⟨front, behind, hplace, -⟩ := List.lookup_eq_some_iff.mp hpayload
    have hmem : ("payload", payload) ∈ mergeMembers members := by
      rw [hplace]
      exact List.mem_append_right _ List.mem_cons_self
    obtain ⟨item, hitem⟩ := Document.exists_toCbor_of_mem hmembersRead hmem
    refine ⟨item.write, ?_⟩
    rw [WireDocument.format, Document.write, Document.writeCbor, hitem]
    rfl

/-- A map that names no length, with an integer in two octets where none is needed, a name that stands twice, a half
behind a tag, and the single whose digits are those of another double. It is written with every name once, the double
in full and the half without its tag. -/
theorem normalForm_stable_loose :
    let octets : Octets := [0xBF, 0x61, 0x74, 0x19, 0x00, 0x01, 0x61, 0x6E, 0xC1, 0xF9, 0x3C, 0x00, 0x61, 0x74, 0xFA,
      0x15, 0xAE, 0x43, 0xFD, 0xFF]
    let normal : Octets := [0xA2, 0x61, 0x74, 0xFB, 0x3A, 0xB5, 0xC8, 0x7F, 0xB0, 0x00, 0x00, 0x00, 0x61, 0x6E, 0xF9,
      0x3C, 0x00]
    octets.length < 2 ^ 64 ∧ ∃ item d, WireDocument.read octets = .ok (.cbor item) ∧
      (WireDocument.cbor item).toDocument = .ok d ∧ d.write .cbor = .ok normal ∧
      (∃ again, WireDocument.read normal = .ok (.cbor again) ∧ (WireDocument.cbor again).toDocument = .ok d ∧
        again.write = normal) ∧
      ∀ reason, Envelope.decode octets ≠ .error (.unsupported reason) := by
  intro octets normal
  have hlength : octets.length < 2 ^ 64 := by decide
  have hevaluated : ((CborReader.read? octets).bind fun read =>
      if read.1.isMap ∧ read.2 = [] then read.1.toDocument.toOption.bind fun d => d.writeCbor.toOption else none) =
        some normal := by
    decide +kernel
  obtain ⟨⟨item, rest⟩, hitem, hread⟩ := Option.bind_eq_some_iff.mp hevaluated
  dsimp only at hread
  split at hread
  · next hwhole =>
    obtain ⟨hmap, rfl⟩ := hwhole
    obtain ⟨d, hd, hnormal⟩ := Option.bind_eq_some_iff.mp hread
    have hwire := WireDocument.read_eq_cbor_iff.mpr ⟨hitem, hmap⟩
    have hdocument := WireDocument.toDocument_cbor_eq_ok_iff.mpr (toOption_eq_some_iff.mp hd)
    have hwrite : d.write .cbor = .ok normal := by
      rw [Document.write, toOption_eq_some_iff.mp hnormal]
      rfl
    obtain ⟨⟨written, again, hwritten, hagain⟩, hdecode⟩ := normalForm_stable hlength hwire hdocument
    obtain rfl : written = normal := Except.ok.inj (hwritten.symm.trans hwrite)
    exact ⟨hlength, item, d, hwire, hdocument, hwrite, ⟨again, hagain⟩, hdecode⟩
  · cases hread

end FieldLink
