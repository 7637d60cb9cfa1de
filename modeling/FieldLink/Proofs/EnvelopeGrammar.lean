import FieldLink.Proofs.CborNormalForm

/-!
# What the decoder of envelopes accepts

An octet string that holds an object is an envelope just if five of its members keep the rules for their fields;
the first of them that does not is what it is refused for. Writing the payload once more, for its CRC, cannot
fail where the payload was read, so that nothing else in the object is ever fatal.
-/

namespace FieldLink.Envelope

def HoldsObject (octets : Octets) (format : WireFormat) (members : List (String × Document)) : Prop :=
  ∃ wire, WireDocument.read octets = .ok wire ∧ wire.format = format ∧ wire.toDocument = .ok (.object members)

/-- Why octets are no envelope: they cannot be read, have no document or one that is no object, or a field is the
first of the object to hold what it may not. -/
inductive Refused (octets : Octets) : ProtocolError → Prop
  | unread {error : ProtocolError} (h : WireDocument.read octets = .error error) : Refused octets error
  | noDocument {wire : WireDocument} {error : ProtocolError} (hread : WireDocument.read octets = .ok wire)
      (h : wire.toDocument = .error error) : Refused octets error
  | noObject {wire : WireDocument} {d : Document} (hread : WireDocument.read octets = .ok wire)
      (hdocument : wire.toDocument = .ok d) (h : ∀ members, d ≠ .object members) : Refused octets .notMap
  | field {format : WireFormat} {members : List (String × Document)} {field : EnvelopeField}
      (hobject : HoldsObject octets format members) (h : field.IsFirstRefused members) :
      Refused octets (field.refusal (members.lookup field.name))

variable {octets : Octets} {format : WireFormat} {members : List (String × Document)} {e : Envelope}
  {error : ProtocolError}

namespace HoldsObject

theorem decode (h : HoldsObject octets format members) : Envelope.decode octets = ofMembers format members := by
  obtain ⟨wire, hread, rfl, hdocument⟩ := h
  rw [Envelope.decode, hread]
  change wire.toDocument >>= _ = _
  rw [hdocument]
  rfl

private theorem exists_write (h : HoldsObject octets format members) {name : String} {d : Document}
    (hfound : members.lookup name = some d) : ∃ written, d.write format = .ok written := by
  obtain ⟨wire, -, rfl, hdocument⟩ := h
  cases wire with
  | json document => exact ⟨_, rfl⟩
  | cbor item =>
    obtain ⟨written, hwritten⟩ :=
      Cbor.exists_toCbor_of_toDocument item (WireDocument.toDocument_cbor_eq_ok_iff.mp hdocument)
    obtain ⟨entries, hentries, -⟩ := exists_of_bind_eq_ok hwritten
    obtain ⟨front, behind, rfl, -⟩ := List.lookup_eq_some_iff.mp hfound
    obtain ⟨value, hvalue⟩ := Document.exists_toCbor_of_mem hentries (List.mem_append_right _ List.mem_cons_self)
    refine ⟨value.write, ?_⟩
    rw [WireDocument.format, Document.write, Document.writeCbor, hvalue]
    rfl

theorem decode_eq_ok_iff (h : HoldsObject octets format members) :
    Envelope.decode octets = .ok e ↔ e.format = format ∧ e.ReadFrom members := by
  rw [h.decode]
  constructor
  · exact readFrom_of_ofMembers
  · rintro ⟨rfl, hfields⟩
    obtain ⟨written, hwritten⟩ := h.exists_write hfields.payload
    exact hfields.ofMembers hwritten

theorem decode_eq_error_iff (h : HoldsObject octets format members) :
    Envelope.decode octets = .error error ↔
      ∃ field, EnvelopeField.IsFirstRefused members field ∧ error = field.refusal (members.lookup field.name) := by
  have hrefused {reason : ProtocolError} (hreason : ofMembers format members = .error reason) :=
    exists_isFirstRefused (fun payload hfound => h.exists_write hfound) hreason
  rw [h.decode]
  constructor
  · exact hrefused
  · rintro ⟨field, hfield, rfl⟩
    cases hresult : ofMembers format members with
    | ok e => exact absurd ((readFrom_of_ofMembers hresult).2.admits field) hfield.1
    | error reason =>
      obtain ⟨found, hfound, rfl⟩ := hrefused hresult
      rw [hfound.unique hfield]

/-- An object is an envelope just if each of the five fields holds what it may. -/
theorem exists_decode_iff (h : HoldsObject octets format members) :
    (∃ e, Envelope.decode octets = .ok e) ↔ ∀ field : EnvelopeField, field.Admits (members.lookup field.name) := by
  constructor
  · rintro ⟨e, he⟩
    exact (h.decode_eq_ok_iff.mp he).2.admits
  · intro hadmits
    cases hresult : Envelope.decode octets with
    | ok e => exact ⟨e, rfl⟩
    | error reason =>
      obtain ⟨field, hfield, -⟩ := h.decode_eq_error_iff.mp hresult
      exact absurd (hadmits field) hfield.1

end HoldsObject

private theorem holdsObject_writeJson (hnames : (Document.object members).HasDistinctNames)
    (hdepth : (Document.object members).depth ≤ Json.maxDepth) :
    HoldsObject (Document.object members).writeJson .json members :=
  ⟨_, read_writeJson hnames hdepth, rfl, rfl⟩

theorem holdsObject_of_decode (h : decode octets = .ok e) : ∃ format members, HoldsObject octets format members := by
  rw [decode] at h
  obtain ⟨wire, hread, h⟩ := exists_of_bind_eq_ok h
  obtain ⟨document, hdocument, h⟩ := exists_of_bind_eq_ok h
  cases document with
  | object members => exact ⟨_, members, wire, hread, rfl, hdocument⟩
  | null | bool value | integer n | float x | text s | array items => cases h

private theorem refused_of_decode (h : decode octets = .error error) : Refused octets error := by
  have hdecode := h
  rw [decode] at h
  rcases error_of_bind_eq_error h with hread | ⟨wire, hread, h⟩
  · exact .unread hread
  rcases error_of_bind_eq_error h with hdocument | ⟨document, hdocument, h⟩
  · exact .noDocument hread hdocument
  cases document with
  | object members =>
    have hobject : HoldsObject octets wire.format members := ⟨wire, hread, rfl, hdocument⟩
    obtain ⟨field, hfield, rfl⟩ := hobject.decode_eq_error_iff.mp hdecode
    exact .field hobject hfield
  | null | bool value | integer n | float x | text s | array items =>
    cases h
    exact .noObject hread hdocument (by rintro members ⟨⟩)

theorem Refused.decode (h : Refused octets error) : decode octets = .error error := by
  cases h with
  | unread h =>
    rw [Envelope.decode, h]
    rfl
  | noDocument hread h =>
    rw [Envelope.decode, hread]
    simp only [bind, Except.bind, h]
  | @noObject wire d hread hdocument h =>
    rw [Envelope.decode, hread]
    cases d with
    | object members => exact absurd rfl (h members)
    | null | bool value | integer n | float x | text s | array items => simp only [bind, Except.bind, hdocument]
  | field hobject h => exact hobject.decode_eq_error_iff.mpr ⟨_, h, rfl⟩

/-- An octet string is an envelope just if it holds an object in which the version, the kind, the time stamp, the
sequence number and the payload hold what they may, and it says of these and of the CRC and the signature what there
is to say. Otherwise it is refused, for the first of the five where it holds an object. What else is in the object,
the CRC and the signature with it, never makes a difference to that. -/
theorem decode_accepts_grammar (octets : Octets) :
    ((∃ e, decode octets = .ok e) ↔ ∃ format members, HoldsObject octets format members ∧
      ∀ field : EnvelopeField, field.Admits (members.lookup field.name)) ∧
    (∀ e, decode octets = .ok e ↔ ∃ members, HoldsObject octets e.format members ∧ e.ReadFrom members) ∧
    (∀ error, decode octets = .error error ↔ Refused octets error) ∧
    ∀ format members, HoldsObject octets format members → ∀ others otherFormat otherMembers,
      HoldsObject others otherFormat otherMembers →
      (∀ field : EnvelopeField, members.lookup field.name = otherMembers.lookup field.name) →
      ∀ error, decode octets = .error error ↔ decode others = .error error := by
  refine ⟨⟨?_, ?_⟩, fun e => ⟨?_, ?_⟩, fun error => ⟨refused_of_decode, Refused.decode⟩, ?_⟩
  · rintro ⟨e, he⟩
    obtain ⟨format, members, hobject⟩ := holdsObject_of_decode he
    exact ⟨format, members, hobject, hobject.exists_decode_iff.mp ⟨e, he⟩⟩
  · rintro ⟨format, members, hobject, hadmits⟩
    exact hobject.exists_decode_iff.mpr hadmits
  · intro he
    obtain ⟨format, members, hobject⟩ := holdsObject_of_decode he
    obtain ⟨rfl, hfields⟩ := hobject.decode_eq_ok_iff.mp he
    exact ⟨members, hobject, hfields⟩
  · rintro ⟨members, hobject, hfields⟩
    exact hobject.decode_eq_ok_iff.mpr ⟨rfl, hfields⟩
  · intro format members hobject others otherFormat otherMembers hother hsame error
    rw [hobject.decode_eq_error_iff, hother.decode_eq_error_iff]
    simp only [EnvelopeField.IsFirstRefused, EnvelopeField.AdmitBefore, hsame]

/-- A CRC that is a text, a signature that is a number and a member of no meaning are as good as none. -/
theorem decode_accepts_grammar_loose :
    let plain : List (String × Document) :=
      [("v", .ofUInt32 2), ("type", .text "cmd"), ("ts", .ofUInt64 5), ("payload", .array [])]
    let loose : List (String × Document) :=
      plain ++ [("crc", .text "none"), ("auth", .ofUInt32 7), ("note", .null)]
    HoldsObject (Document.object plain).writeJson .json plain ∧
    HoldsObject (Document.object loose).writeJson .json loose ∧
    (∀ error, decode (Document.object plain).writeJson = .error error ↔
      decode (Document.object loose).writeJson = .error error) ∧
    ∃ e, decode (Document.object loose).writeJson = .ok e := by
  intro plain loose
  have hplain : HoldsObject (Document.object plain).writeJson .json plain :=
    holdsObject_writeJson ⟨by decide, trivial, trivial, trivial, trivial, trivial⟩ (by decide)
  have hloose : HoldsObject (Document.object loose).writeJson .json loose :=
    holdsObject_writeJson ⟨by decide, trivial, trivial, trivial, trivial, trivial, trivial, trivial, trivial⟩ (by decide)
  have hsame (field : EnvelopeField) : plain.lookup field.name = loose.lookup field.name := by
    cases field <;> rfl
  have hadmits (field : EnvelopeField) : field.Admits (loose.lookup field.name) := by
    cases field with
    | version => exact ⟨_, rfl, _, rfl, by decide, by decide⟩
    | kind => exact ⟨"cmd", by decide, rfl⟩
    | timestamp => exact ⟨_, rfl, _, rfl, by decide, by decide⟩
    | sequence => rintro value ⟨⟩
    | payload => exact ⟨_, rfl⟩
  refine ⟨hplain, hloose, ?_, (decode_accepts_grammar _).1.mpr ⟨.json, loose, hloose, hadmits⟩⟩
  exact (decode_accepts_grammar _).2.2.2 .json plain hplain _ .json loose hloose hsame

end FieldLink.Envelope
