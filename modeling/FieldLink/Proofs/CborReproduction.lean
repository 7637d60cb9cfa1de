import FieldLink.Proofs.EnvelopeFidelity
import FieldLink.Proofs.FloatWidths

/-!
# The octets of a peer, written again

The octets of a CBOR map that the document model has a place for, read and written again. All but floats come
back as they were; so a message from a peer that writes shortest octets has the CRC that the peer found, as long
as the floats of its payload keep their widths.
-/

namespace FieldLink

namespace Cbor

mutual

/-- An item that the document model has a place for: the keys of a map are texts, each of which stands once, and
there are no tags, byte strings, wider integers and floats that are not finite. -/
def Conforms : Cbor → Prop
  | .null => True
  | .bool _ => True
  | .integer n => -2 ^ 63 ≤ n ∧ n < 2 ^ 64
  | .float (.finite _) => True
  | .text _ => True
  | .array items => ItemsConform items
  | .map entries => (∃ names : List String, names.Nodup ∧ entries.map Prod.fst = names.map text) ∧
      EntriesConform entries
  | _ => False

def ItemsConform : List Cbor → Prop
  | [] => True
  | item :: rest => Conforms item ∧ ItemsConform rest

def EntriesConform : List (Cbor × Cbor) → Prop
  | [] => True
  | (_, value) :: rest => Conforms value ∧ EntriesConform rest

end

mutual

def floats : Cbor → List Double
  | .float (.finite x) => [x]
  | .array items => itemsFloats items
  | .map entries => entriesFloats entries
  | _ => []

def itemsFloats : List Cbor → List Double
  | [] => []
  | item :: rest => floats item ++ itemsFloats rest

def entriesFloats : List (Cbor × Cbor) → List Double
  | [] => []
  | (_, value) :: rest => floats value ++ entriesFloats rest

end

mutual

theorem Conforms.encodable (item : Cbor) (h : item.Conforms) (hlength : item.write.length < 2 ^ 64) :
    item.Encodable := by
  cases item with
  | null | bool value | float value => trivial
  | integer n =>
    rw [Conforms] at h
    rw [Encodable]
    omega
  | text s =>
    rw [write, writeText, List.length_append] at hlength
    exact Nat.lt_of_le_of_lt (Nat.le_add_left _ _) hlength
  | bytes octets => exact h.elim
  | tagged tag item => exact h.elim
  | array items =>
    rw [write, List.length_append] at hlength
    have hcount := length_le_length_writeItems items
    exact ⟨by omega, itemsEncodable items h (by omega)⟩
  | map entries =>
    obtain ⟨⟨names, -, hkeys⟩, hvalues⟩ := h
    rw [write, List.length_append] at hlength
    have hcount := length_le_length_writeEntries entries
    exact ⟨by omega, entriesEncodable entries hkeys hvalues (by omega)⟩

private theorem itemsEncodable (items : List Cbor) (h : ItemsConform items)
    (hlength : (writeItems items).length < 2 ^ 64) : ItemsEncodable items := by
  cases items with
  | nil => trivial
  | cons item items =>
    rw [writeItems, List.length_append] at hlength
    exact ⟨Conforms.encodable item h.1 (by omega), itemsEncodable items h.2 (by omega)⟩

private theorem entriesEncodable (entries : List (Cbor × Cbor)) {names : List String}
    (hkeys : entries.map Prod.fst = names.map text) (h : EntriesConform entries)
    (hlength : (writeEntries entries).length < 2 ^ 64) : EntriesEncodable entries := by
  cases entries with
  | nil => trivial
  | cons entry entries =>
    obtain ⟨key, value⟩ := entry
    cases names with
    | nil => cases hkeys
    | cons name names =>
      obtain ⟨rfl, hothers⟩ := List.cons.inj hkeys
      rw [writeEntries, List.length_append, List.length_append, write, writeText, List.length_append] at hlength
      refine ⟨?_, Conforms.encodable value h.1 (by omega), entriesEncodable entries hothers h.2 (by omega)⟩
      rw [Encodable, FitsMemory]
      omega

end

/-- What a document that was read from an item has of it: it is written as the item again just if the floats of the
item keep their widths. -/
structure ReadsAs (item : Cbor) (d : Document) : Prop where
  toDocument : item.toDocument = .ok d
  distinct : d.HasDistinctNames
  toCbor_iff : d.toCbor = .ok item ↔ ∀ x ∈ item.floats, KeepsWidth x

mutual

/-- A conforming item is read as a document. -/
theorem Conforms.exists_readsAs (item : Cbor) (h : item.Conforms) : ∃ d, item.ReadsAs d := by
  cases item with
  | null => exact ⟨.null, rfl, trivial, iff_of_true rfl (by simp [floats])⟩
  | bool value => exact ⟨.bool value, rfl, trivial, iff_of_true rfl (by simp [floats])⟩
  | integer n =>
    have hvalue : Integer.ofInt? n = some ⟨n, h.1, h.2⟩ := dif_pos h
    refine ⟨.integer ⟨n, h.1, h.2⟩, ?_, trivial, iff_of_true rfl (by simp [floats])⟩
    rw [Cbor.toDocument, hvalue]
  | float value =>
    cases value with
    | finite x =>
      obtain ⟨y, hread, hwrite⟩ := floatToDocument_finite x
      exact ⟨.float y, hread, trivial, by simpa [floats, Document.toCbor] using hwrite⟩
    | infinite negative => exact h.elim
    | invalid => exact h.elim
  | text s => exact ⟨.text s, rfl, trivial, iff_of_true rfl (by simp [floats])⟩
  | bytes octets => exact h.elim
  | tagged tag item => exact h.elim
  | array items =>
    obtain ⟨documents, hread, hdistinct, hwrite⟩ := exists_itemsToDocuments items h
    refine ⟨.array documents, ?_, hdistinct, ?_⟩
    · rw [Cbor.toDocument, hread]
      rfl
    · rw [floats, ← hwrite, Document.toCbor, bind_eq_ok_iff]
      simp [pure, Except.pure]
  | map entries =>
    obtain ⟨⟨names, hnames, hkeys⟩, hvalues⟩ := h
    obtain ⟨members, hread, hmembers, hdistinct, hwrite⟩ := exists_entriesToMembers entries hkeys hvalues
    rw [← hmembers] at hnames
    refine ⟨.object members, ?_, ⟨hnames, hdistinct⟩, ?_⟩
    · rw [Cbor.toDocument, hread]
      simp only [bind, Except.bind, pure, Except.pure, mergeMembers_of_nodup hnames]
    · rw [floats, ← hwrite, Document.toCbor, bind_eq_ok_iff]
      simp [pure, Except.pure]

private theorem exists_itemsToDocuments (items : List Cbor) (h : ItemsConform items) :
    ∃ documents, itemsToDocuments items = .ok documents ∧ Document.ItemsHaveDistinctNames documents ∧
      (Document.itemsToCbor documents = .ok items ↔ ∀ x ∈ itemsFloats items, KeepsWidth x) := by
  cases items with
  | nil => exact ⟨[], rfl, trivial, iff_of_true rfl (by simp [itemsFloats])⟩
  | cons item items =>
    obtain ⟨d, hread, hdistinct, hwrite⟩ := Conforms.exists_readsAs item h.1
    obtain ⟨documents, hreads, hdistincts, hwrites⟩ := exists_itemsToDocuments items h.2
    refine ⟨d :: documents, ?_, ⟨hdistinct, hdistincts⟩, ?_⟩
    · rw [itemsToDocuments, hread, hreads]
      rfl
    · simp only [itemsFloats, List.forall_mem_append, ← hwrite, ← hwrites, Document.itemsToCbor, bind_eq_ok_iff,
        pure, Except.pure, Except.ok.injEq, List.cons.injEq]
      constructor
      · rintro ⟨a, ha, b, hb, rfl, rfl⟩
        exact ⟨ha, hb⟩
      · rintro ⟨ha, hb⟩
        exact ⟨item, ha, items, hb, rfl, rfl⟩

private theorem exists_entriesToMembers (entries : List (Cbor × Cbor)) {names : List String}
    (hkeys : entries.map Prod.fst = names.map text) (h : EntriesConform entries) :
    ∃ members, entriesToMembers entries = .ok members ∧ members.map Prod.fst = names ∧
      Document.MembersHaveDistinctNames members ∧
      (Document.membersToCbor members = .ok entries ↔ ∀ x ∈ entriesFloats entries, KeepsWidth x) := by
  cases entries with
  | nil =>
    cases names with
    | nil => exact ⟨[], rfl, rfl, trivial, iff_of_true rfl (by simp [entriesFloats])⟩
    | cons name names => cases hkeys
  | cons entry entries =>
    obtain ⟨key, value⟩ := entry
    cases names with
    | nil => cases hkeys
    | cons name names =>
      obtain ⟨rfl, hothers⟩ := List.cons.inj hkeys
      obtain ⟨d, hread, hdistinct, hwrite⟩ := Conforms.exists_readsAs value h.1
      obtain ⟨members, hreads, hmembers, hdistincts, hwrites⟩ := exists_entriesToMembers entries hothers h.2
      refine ⟨(name, d) :: members, ?_, ?_, ⟨hdistinct, hdistincts⟩, ?_⟩
      · rw [entriesToMembers, hread, hreads]
        rfl
      · rw [List.map_cons, hmembers]
      · simp only [entriesFloats, List.forall_mem_append, ← hwrite, ← hwrites, Document.membersToCbor,
          bind_eq_ok_iff, pure, Except.pure, Except.ok.injEq, List.cons.injEq, Prod.mk.injEq]
        constructor
        · rintro ⟨a, ha, b, hb, ⟨-, rfl⟩, rfl⟩
          exact ⟨ha, hb⟩
        · rintro ⟨ha, hb⟩
          exact ⟨value, ha, entries, hb, ⟨trivial, rfl⟩, rfl⟩

end

private theorem ReadsAs.writeCbor_iff {item : Cbor} {d : Document} (h : item.ReadsAs d) (hencodable : item.Encodable)
    (hdepth : item.depth ≤ CborReader.maxDepth) (hlength : item.write.length < 2 ^ 64) :
    d.writeCbor = .ok item.write ↔ ∀ x ∈ item.floats, KeepsWidth x := by
  rw [← h.toCbor_iff, Document.writeCbor, bind_eq_ok_iff]
  constructor
  · rintro ⟨other, hother, hwrite⟩
    have hwrite : other.write = item.write := Except.ok.inj hwrite
    have hfits := Document.fits_of_toCbor d hother (by rwa [hwrite])
    have hrepresents := Document.represents_of_toCbor d h.distinct hfits hother
    have hread := CborReader.read?_write hencodable hdepth
    rw [← hwrite] at hread
    have heq := CborReader.eq_of_read?_write hrepresents.encodable hread
    rw [hother, ← (Prod.mk.inj heq).1]
  · intro hitem
    exact ⟨item, hitem, rfl⟩

private theorem conforms_of_mem {entries : List (Cbor × Cbor)} {key value : Cbor} (h : EntriesConform entries)
    (hmem : (key, value) ∈ entries) : value.Conforms := by
  induction entries with
  | nil => cases hmem
  | cons entry entries ih =>
    rcases List.mem_cons.mp hmem with rfl | hrest
    · exact h.1
    · exact ih h.2 hrest

private theorem lookup_entriesToMembers {entries : List (Cbor × Cbor)} {names : List String} (hnames : names.Nodup)
    (hkeys : entries.map Prod.fst = names.map text) {members : List (String × Document)}
    (h : entriesToMembers entries = .ok members) (name : String) (d : Document) :
    members.lookup name = some d ↔ ∃ value, (text name, value) ∈ entries ∧ value.toDocument = .ok d := by
  induction entries generalizing names members with
  | nil =>
    cases h
    simp
  | cons entry entries ih =>
    obtain ⟨key, value⟩ := entry
    cases names with
    | nil => cases hkeys
    | cons first names =>
      obtain ⟨rfl, hothers⟩ := List.cons.inj hkeys
      obtain ⟨hnew, hdistinct⟩ := List.nodup_cons.mp hnames
      obtain ⟨spelt, document, rest, hspelt, hdocument, hrest, rfl⟩ := exists_of_entriesToMembers_cons h
      cases hspelt
      have htail := ih hdistinct hothers hrest
      by_cases hname : name = first
      · -- The name stands here and nowhere else.
        subst hname
        have hnowhere (other : Cbor) : (text name, other) ∉ entries := by
          intro hmem
          have hkey := List.mem_map_of_mem (f := Prod.fst) hmem
          rw [hothers, List.mem_map] at hkey
          obtain ⟨same, hsame, heq⟩ := hkey
          cases heq
          exact hnew hsame
        simp [hnowhere, hdocument]
      · have hother : (name == first) = false := by simpa using hname
        rw [List.lookup_cons, hother, htail]
        simp [hname]

end Cbor

namespace Envelope

open Cbor (text integer)

/-- The entries of a message with a payload and the CRC of its octets, in any order and with any others. -/
structure IsMessage (entries : List (Cbor × Cbor)) (payload : Cbor) : Prop where
  version : ∃ n : UInt32, (text "v", integer n.toNat) ∈ entries
  kind : ∃ kind : MessageKind, (text "type", text kind.name) ∈ entries
  timestamp : ∃ n : UInt64, (text "ts", integer n.toNat) ∈ entries
  sequence : ∀ value, (text "seq", value) ∈ entries → ∃ n : UInt32, value = integer n.toNat
  content : (text "payload", payload) ∈ entries
  crc : (text "crc", integer (Checksum.crc32 payload.write).toNat) ∈ entries

private theorem toDocument_integer64 (n : UInt64) : (integer n.toNat).toDocument = .ok (.ofUInt64 n) := by
  have hvalue : Integer.ofInt? n.toNat = some (.ofUInt64 n) := Integer.ofInt?_val (.ofUInt64 n)
  rw [Cbor.toDocument, hvalue]
  rfl

private theorem toDocument_integer32 (n : UInt32) : (integer n.toNat).toDocument = .ok (.ofUInt32 n) := by
  have h := toDocument_integer64 n.toUInt64
  rw [UInt32.toNat_toUInt64] at h
  exact h

theorem toDocument_map_of_members {entries : List (Cbor × Cbor)} {members : List (String × Document)}
    (hnames : (members.map Prod.fst).Nodup) (hmembers : Cbor.entriesToMembers entries = .ok members) :
    (WireDocument.cbor (.map entries)).toDocument = .ok (.object members) := by
  rw [WireDocument.toDocument, Cbor.toDocument, hmembers]
  simp only [bind, Except.bind, pure, Except.pure, mergeMembers_of_nodup hnames, Except.mapError]

section Fields

variable {entries : List (Cbor × Cbor)} {names : List String} {members : List (String × Document)}
  (hnames : names.Nodup) (hkeys : entries.map Prod.fst = names.map text)
  (hmembers : Cbor.entriesToMembers entries = .ok members)
include hnames hkeys hmembers

private theorem lookup_of_mem {name : String} {value : Cbor} {d : Document} (hmem : (text name, value) ∈ entries)
    (hvalue : value.toDocument = .ok d) : members.lookup name = some d :=
  (Cbor.lookup_entriesToMembers hnames hkeys hmembers name d).mpr ⟨value, hmem, hvalue⟩

private theorem exists_sequence
    (h : ∀ value, (text "seq", value) ∈ entries → ∃ n : UInt32, value = integer n.toNat) :
    ∃ n : UInt32, members.lookup "seq" = some (.ofUInt32 n) ∨ members.lookup "seq" = none ∧ n = 0 := by
  cases hfound : members.lookup "seq" with
  | none => exact ⟨0, .inr ⟨rfl, rfl⟩⟩
  | some found =>
    obtain ⟨value, hmem, hvalue⟩ := (Cbor.lookup_entriesToMembers hnames hkeys hmembers _ _).mp hfound
    obtain ⟨n, rfl⟩ := h value hmem
    rw [toDocument_integer32] at hvalue
    cases hvalue
    exact ⟨n, .inl rfl⟩

end Fields

theorem decode_of_isMessage {entries : List (Cbor × Cbor)} {payload : Cbor}
    (hconforms : (Cbor.map entries).Conforms) (hmessage : IsMessage entries payload)
    (hread : WireDocument.read (Cbor.map entries).write = .ok (.cbor (.map entries)))
    (hkeeps : ∀ x ∈ payload.floats, KeepsWidth x) :
    ∃ e, decode (Cbor.map entries).write = .ok e ∧ payload.toDocument = .ok e.payload ∧ e.crcValid = true := by
  obtain ⟨⟨names, hnames, hkeys⟩, hvalues⟩ := hconforms
  obtain ⟨members, hmembers, hfirst, -, -⟩ := Cbor.exists_entriesToMembers entries hkeys hvalues
  obtain ⟨version, hversion⟩ := hmessage.version
  obtain ⟨kind, hkind⟩ := hmessage.kind
  obtain ⟨timestamp, htimestamp⟩ := hmessage.timestamp
  obtain ⟨d, hd⟩ := Cbor.Conforms.exists_readsAs payload (Cbor.conforms_of_mem hvalues hmessage.content)
  obtain ⟨sequence, hsequence⟩ := exists_sequence hnames hkeys hmembers hmessage.sequence
  have hcrc := lookup_of_mem hnames hkeys hmembers hmessage.crc (toDocument_integer32 _)
  have hitem : d.toCbor = .ok payload := hd.toCbor_iff.mpr hkeeps
  have hwrite : d.write .cbor = .ok payload.write := by
    rw [Document.write, Document.writeCbor, hitem]
    rfl
  have hdocument := toDocument_map_of_members (hfirst ▸ hnames) hmembers
  let e : Envelope := {
    version, kind, timestamp, sequence, payload := d, crc := Checksum.crc32 payload.write, crcValid := true
    format := .cbor, signature := (members.lookup "auth").bind Signature.ofDocument? }
  have hfields : e.ReadFrom members := {
    version := lookup_of_mem hnames hkeys hmembers hversion (toDocument_integer32 version)
    kind := lookup_of_mem hnames hkeys hmembers hkind rfl
    timestamp := lookup_of_mem hnames hkeys hmembers htimestamp (toDocument_integer64 timestamp)
    sequence := hsequence
    payload := lookup_of_mem hnames hkeys hmembers hmessage.content hd.toDocument
    crc := .inl hcrc
    crcValid := iff_of_true rfl ⟨payload.write, hwrite, hcrc⟩
    signature := fun _ => lookup_auth_iff }
  refine ⟨e, ?_, hd.toDocument, rfl⟩
  rw [decode, hread]
  simp only [bind, Except.bind, hdocument]
  exact hfields.ofMembers hwrite

end Envelope

/-- A map of a conforming peer is read as CBOR and has a document, which is written in the same octets just if all
floats keep their widths. If it is a message, those of the payload are enough for the CRC to be right. -/
theorem conforming_reproduced_iff {entries : List (Cbor × Cbor)} (hconforms : (Cbor.map entries).Conforms)
    (hdepth : (Cbor.map entries).depth ≤ CborReader.maxDepth) (hlength : (Cbor.map entries).write.length < 2 ^ 64) :
    WireDocument.read (Cbor.map entries).write = .ok (.cbor (.map entries)) ∧
    (∃ d, (WireDocument.cbor (.map entries)).toDocument = .ok d ∧
      (d.write .cbor = .ok (Cbor.map entries).write ↔ ∀ x ∈ (Cbor.map entries).floats, KeepsWidth x)) ∧
    ∀ payload, Envelope.IsMessage entries payload → (∀ x ∈ payload.floats, KeepsWidth x) →
      ∃ e, Envelope.decode (Cbor.map entries).write = .ok e ∧ payload.toDocument = .ok e.payload ∧
        e.crcValid = true := by
  have hencodable := Cbor.Conforms.encodable _ hconforms hlength
  have hread := Cbor.read_write_map hencodable hdepth
  obtain ⟨d, hd⟩ := Cbor.Conforms.exists_readsAs _ hconforms
  refine ⟨hread, ⟨d, ?_, ?_⟩, ?_⟩
  · rw [WireDocument.toDocument, hd.toDocument]
    rfl
  · rw [← hd.writeCbor_iff hencodable hdepth hlength, Document.write]
    cases d.writeCbor with
    | ok octets => simp [Except.mapError]
    | error refusal => simp [Except.mapError]
  · intro payload hmessage hkeeps
    exact Envelope.decode_of_isMessage hconforms hmessage hread hkeeps

/-- A reading of single width, two halves and a double of thirteen digits, in a message with fields in an order of
its own and without a number. -/
theorem conforming_reproduced_reading :
    let payload : Cbor := .map [
      (.text "t", .float (.finite ⟨false, 0x40355EB860000000, by decide⟩)),
      (.text "h", .array [.float (.finite ⟨false, 0x3FF8000000000000, by decide⟩),
        .float (.finite ⟨true, 0, by decide⟩)]),
      (.text "x", .float (.finite ⟨false, 0x3FBF9ADD3746E984, by decide⟩))]
    let entries : List (Cbor × Cbor) := [
      (.text "crc", .integer (Checksum.crc32 payload.write).toNat), (.text "ts", .integer 1700000000000),
      (.text "type", .text "sensor_update"), (.text "payload", payload), (.text "v", .integer 1)]
    (∃ d, (WireDocument.cbor (.map entries)).toDocument = .ok d ∧
      d.write .cbor = .ok (Cbor.map entries).write) ∧
    ∃ e, Envelope.decode (Cbor.map entries).write = .ok e ∧ e.crcValid = true := by
  intro payload entries
  have hcrc := (Checksum.crc32 payload.write).toNat_lt
  have hconforms : (Cbor.map entries).Conforms := by
    refine ⟨⟨["crc", "ts", "type", "payload", "v"], by decide, rfl⟩, ⟨by omega, by omega⟩,
      ⟨by decide, by decide⟩, trivial, ?_, ⟨by decide, by decide⟩, trivial⟩
    exact ⟨⟨["t", "h", "x"], by decide, rfl⟩, trivial, ⟨trivial, trivial, trivial⟩, trivial, trivial⟩
  have hlength : (Cbor.map entries).write.length < 2 ^ 64 := by decide +kernel
  have hkeeps : ∀ x ∈ payload.floats, KeepsWidth x := by decide +kernel
  have hmessage : Envelope.IsMessage entries payload := by
    refine ⟨⟨1, by simp [entries]⟩, ⟨.telemetry, by simp [entries, MessageKind.name]⟩,
      ⟨1700000000000, by simp [entries]⟩, ?_, by simp [entries], by simp [entries]⟩
    intro value hmem
    simp [entries] at hmem
  obtain ⟨-, ⟨d, hd, hwrite⟩, hdecode⟩ := conforming_reproduced_iff hconforms (by decide) hlength
  obtain ⟨e, he, -, hvalid⟩ := hdecode payload hmessage hkeeps
  have hfloats : (Cbor.map entries).floats = payload.floats := rfl
  exact ⟨⟨d, hd, hwrite.mpr (hfloats ▸ hkeeps)⟩, e, he, hvalid⟩

/-- One tenth in double width goes out as the single that has this decimal. -/
theorem conforming_not_reproduced :
    let item : Cbor := .map [(.text "t", .float (.finite ⟨false, 0x3FB999999999999A, by decide⟩))]
    item.Conforms ∧ item.depth ≤ CborReader.maxDepth ∧
      item.write = [0xA1, 0x61, 0x74, 0xFB, 0x3F, 0xB9, 0x99, 0x99, 0x99, 0x99, 0x99, 0x9A] ∧
      ∃ d, (WireDocument.cbor item).toDocument = .ok d ∧
        d.write .cbor = .ok [0xA1, 0x61, 0x74, 0xFA, 0x3D, 0xCC, 0xCC, 0xCD] := by
  intro item
  let tenth : Double := ⟨false, 0x3FB999999999999A, by decide⟩
  let narrow : Single := ⟨false, 0x3DCCCCCD, by decide⟩
  have hread : floatToDocument (.finite tenth) = .ok (.float tenth) := by
    have hexactly : tenth.exactly? .single = none := by decide +kernel
    rw [floatToDocument, widened, hexactly]
    rfl
  have hwritten : floatToCbor tenth = .ok (.float (.convert .double (.finite narrow))) := by
    have hsingle : asSingle tenth = some narrow := by decide +kernel
    rw [floatToCbor, hsingle]
    rfl
  refine ⟨⟨⟨["t"], by decide, rfl⟩, trivial, trivial⟩, by decide, by decide +kernel,
    .object [("t", .float tenth)], ?_, ?_⟩
  · simp only [WireDocument.toDocument, item, Cbor.toDocument, Cbor.entriesToMembers]
    rw [hread]
    rfl
  · simp only [Document.write, Document.writeCbor, Document.toCbor, Document.membersToCbor]
    rw [hwritten]
    exact congrArg Except.ok (by decide +kernel)

end FieldLink
