import FieldLink.Envelope
import FieldLink.Proofs.Outcomes

/-!
# The members of a received envelope

Five fields are looked at in a fixed order, each with a rule of its own for what it may hold, and the first that
breaks its rule is what the message is refused for. The CRC, the signature and every other member are left out
of that: they decide what the envelope says of itself, never whether there is one.
-/

namespace FieldLink

namespace Document

def IsBelow (bound : Nat) (d : Document) : Prop :=
  ∃ n : Integer, d = .integer n ∧ 0 ≤ n.val ∧ n.val < bound

variable {d : Document}

theorem natural?_eq_some_iff {bound k : Nat} :
    d.natural? bound = some k ↔ ∃ n : Integer, d = .integer n ∧ n.val = k ∧ k < bound := by
  cases d with
  | integer n =>
    simp only [natural?, integer.injEq, exists_eq_left']
    split
    · rw [Option.some.injEq]
      omega
    · simp only [reduceCtorEq, false_iff]
      omega
  | _ => simp [natural?]

theorem exists_natural?_iff {bound : Nat} : (∃ k, d.natural? bound = some k) ↔ d.IsBelow bound := by
  simp only [natural?_eq_some_iff, IsBelow]
  constructor
  · rintro ⟨k, n, rfl, hvalue, hlt⟩
    exact ⟨n, rfl, by omega, by omega⟩
  · rintro ⟨n, rfl, hlower, hupper⟩
    exact ⟨n.val.toNat, n, rfl, by omega, by omega⟩

theorem integer_eq_ofUInt64_iff {m : Integer} {n : UInt64} : integer m = ofUInt64 n ↔ m.val = n.toNat := by
  obtain ⟨value, lower, upper⟩ := m
  simp only [ofUInt64, Integer.ofUInt64, integer.injEq, Integer.mk.injEq]

theorem uint64?_eq_some_iff {n : UInt64} : d.uint64? = some n ↔ d = ofUInt64 n := by
  constructor
  · intro h
    obtain ⟨k, hk, rfl⟩ := Option.map_eq_some_iff.mp h
    obtain ⟨m, rfl, hvalue, hlt⟩ := natural?_eq_some_iff.mp hk
    rw [integer_eq_ofUInt64_iff, hvalue, UInt64.toNat_ofNat_of_lt' hlt]
  · rintro rfl
    exact uint64?_ofUInt64 n

theorem uint32?_eq_some_iff {n : UInt32} : d.uint32? = some n ↔ d = ofUInt32 n := by
  constructor
  · intro h
    obtain ⟨k, hk, rfl⟩ := Option.map_eq_some_iff.mp h
    obtain ⟨m, rfl, hvalue, hlt⟩ := natural?_eq_some_iff.mp hk
    rw [ofUInt32, integer_eq_ofUInt64_iff, UInt32.toNat_toUInt64, hvalue, UInt32.toNat_ofNat_of_lt' hlt]
  · rintro rfl
    exact uint32?_ofUInt32 n

theorem exists_uint64?_iff : (∃ n, d.uint64? = some n) ↔ d.IsBelow (2 ^ 64) := by
  rw [← exists_natural?_iff, ← Option.isSome_iff_exists, ← Option.isSome_iff_exists, uint64?, Option.isSome_map]

theorem exists_uint32?_iff : (∃ n, d.uint32? = some n) ↔ d.IsBelow (2 ^ 32) := by
  rw [← exists_natural?_iff, ← Option.isSome_iff_exists, ← Option.isSome_iff_exists, uint32?, Option.isSome_map]

theorem text?_eq_some_iff {s : String} : d.text? = some s ↔ d = .text s := by
  cases d <;> simp [text?]

end Document

namespace MessageKind

def names : List String := ["sensor_update", "cmd", "heartbeat", "cmd_ack"]

theorem ofName?_eq_some_iff {name : String} {kind : MessageKind} : ofName? name = some kind ↔ name = kind.name := by
  constructor
  · intro h
    cases kind <;> grind [ofName?, name]
  · rintro rfl
    exact ofName?_name kind

theorem exists_ofName?_iff {name : String} : (∃ kind, ofName? name = some kind) ↔ name ∈ names := by
  simp only [ofName?_eq_some_iff]
  constructor
  · rintro ⟨kind, rfl⟩
    cases kind <;> decide
  · intro h
    simp only [names, List.mem_cons, List.not_mem_nil, or_false] at h
    rcases h with h | h | h | h
    · exact ⟨.telemetry, h⟩
    · exact ⟨.command, h⟩
    · exact ⟨.heartbeat, h⟩
    · exact ⟨.acknowledgement, h⟩

end MessageKind

namespace EnvelopeField

/-- What may stand in a field, if anything has to: numbers of 32 and 64 bits, one of the four names, and any document
as payload. Only the sequence number may be left out. -/
def Admits : EnvelopeField → Option Document → Prop
  | version, d => ∃ value, d = some value ∧ value.IsBelow (2 ^ 32)
  | kind, d => ∃ name ∈ MessageKind.names, d = some (.text name)
  | timestamp, d => ∃ value, d = some value ∧ value.IsBelow (2 ^ 64)
  | sequence, d => ∀ value, d = some value → value.IsBelow (2 ^ 32)
  | payload, d => ∃ value, d = some value

/-- What is said of a field that holds what it may not. A name that no kind has is quoted. -/
def refusal : EnvelopeField → Option Document → ProtocolError
  | kind, some (.text name) => .unknownKind name
  | field, _ => .missingField field

def place : EnvelopeField → Nat
  | version => 0
  | kind => 1
  | timestamp => 2
  | sequence => 3
  | payload => 4

private theorem eq_of_place_eq {first second : EnvelopeField} (h : first.place = second.place) : first = second := by
  cases first <;> cases second <;> first | rfl | cases h

/-- A reading of a field that gives a value where the field holds what it may, and refuses it for itself elsewhere. -/
def IsRead {α : Type} (field : EnvelopeField) (d : Option Document) (result : Except ProtocolError α) : Prop :=
  (∃ value, result = .ok value) ∧ field.Admits d ∨ result = .error (field.refusal d) ∧ ¬field.Admits d

variable {members : List (String × Document)}

def AdmitBefore (members : List (String × Document)) (place : Nat) : Prop :=
  ∀ field : EnvelopeField, field.place < place → field.Admits (members.lookup field.name)

private theorem admitBefore_zero (members : List (String × Document)) :
    AdmitBefore members 0 :=
  fun _ h => absurd h (Nat.not_lt_zero _)

theorem AdmitBefore.step (field : EnvelopeField) (h : AdmitBefore members field.place)
    (hfield : field.Admits (members.lookup field.name)) : AdmitBefore members (field.place + 1) := by
  intro other hother
  rcases Nat.lt_succ_iff_lt_or_eq.mp hother with hlt | heq
  · exact h other hlt
  · obtain rfl := eq_of_place_eq heq
    exact hfield

/-- The first of the fields that holds what it may not. -/
def IsFirstRefused (members : List (String × Document)) (field : EnvelopeField) : Prop :=
  ¬field.Admits (members.lookup field.name) ∧ AdmitBefore members field.place

theorem IsFirstRefused.unique {first second : EnvelopeField}
    (hfirst : IsFirstRefused members first) (hsecond : IsFirstRefused members second) : first = second := by
  rcases Nat.lt_trichotomy first.place second.place with hlt | heq | hgt
  · exact absurd (hsecond.2 first hlt) hfirst.1
  · exact eq_of_place_eq heq
  · exact absurd (hfirst.2 second hgt) hsecond.1

namespace IsRead

variable {α β : Type} {field : EnvelopeField} {d : Option Document} {result : Except ProtocolError α}

private theorem cases_of_bind_eq_error {next : α → Except ProtocolError β} {e : ProtocolError}
    (h : field.IsRead d result) (hfailed : result >>= next = .error e) :
    (¬field.Admits d ∧ e = field.refusal d) ∨ field.Admits d ∧ ∃ value, result = .ok value ∧ next value = .error e := by
  rcases h with ⟨⟨value, rfl⟩, hadmits⟩ | ⟨rfl, hrefused⟩
  · exact .inr ⟨hadmits, value, rfl, hfailed⟩
  · cases hfailed
    exact .inl ⟨hrefused, rfl⟩

end IsRead
end EnvelopeField

namespace Signature

/-- The parts of a signature: two texts, and a third that may be null or left out. -/
def Parts (s : Signature) (nonce mac algorithm : Option Document) : Prop :=
  nonce = some (.text s.nonce) ∧ mac = some (.text s.mac) ∧
    ((algorithm = none ∨ algorithm = some .null) ∧ s.algorithm = none ∨
      ∃ name, algorithm = some (.text name) ∧ s.algorithm = some name)

/-- The shape of a signature: an object with its parts under their names, or an array with its parts in their order. -/
inductive ShapedAs (s : Signature) : Document → Prop
  | named {members : List (String × Document)}
      (h : s.Parts (members.lookup "nonce") (members.lookup "mac") (members.lookup "alg")) : ShapedAs s (.object members)
  | placed {items : List Document} (hlength : items.length ≤ 3) (h : s.Parts items[0]? items[1]? items[2]?) :
      ShapedAs s (.array items)

variable {s : Signature} {d : Document}

theorem optional_text?_eq_some_iff {field : Option Document} {algorithm : Option String} :
    Shape.optional Document.text? field = some algorithm ↔
      (field = none ∨ field = some .null) ∧ algorithm = none ∨
        ∃ name, field = some (.text name) ∧ algorithm = some name := by
  cases field with
  | none => simp [Shape.optional, eq_comm]
  | some d => cases d <;> simp [Shape.optional, Document.text?, eq_comm]

theorem required_text?_eq_some_iff {field : Option Document} {text : String} :
    Shape.required Document.text? field = some text ↔ field = some (.text text) := by
  simp [Shape.required, Option.bind_eq_some_iff, Document.text?_eq_some_iff]

theorem ofDocument?_eq_some_iff_of_fields {nonce mac algorithm : Option Document}
    (h : Shape.fields? ["nonce", "mac", "alg"] d = some [nonce, mac, algorithm]) :
    ofDocument? d = some s ↔ s.Parts nonce mac algorithm := by
  rw [ofDocument?, h]
  simp only [Option.bind_eq_bind, Option.bind_some, Option.pure_def, Option.bind_eq_some_iff, Option.some.injEq,
    required_text?_eq_some_iff, optional_text?_eq_some_iff, Parts]
  constructor
  · rintro ⟨first, hnonce, second, hmac, name, halgorithm, rfl⟩
    exact ⟨hnonce, hmac, halgorithm⟩
  · rintro ⟨hnonce, hmac, halgorithm⟩
    exact ⟨s.nonce, hnonce, s.mac, hmac, s.algorithm, halgorithm, rfl⟩

private theorem fields?_array {items : List Document} (hlength : items.length ≤ 3) :
    Shape.fields? ["nonce", "mac", "alg"] (.array items) = some [items[0]?, items[1]?, items[2]?] := by
  match items with
  | [] => rfl
  | [nonce] => rfl
  | [nonce, mac] => rfl
  | [nonce, mac, algorithm] => rfl
  | _ :: _ :: _ :: _ :: rest =>
    simp only [List.length_cons] at hlength
    omega

theorem ofDocument?_eq_some_iff : ofDocument? d = some s ↔ s.ShapedAs d := by
  cases d with
  | object members =>
    rw [ofDocument?_eq_some_iff_of_fields rfl]
    constructor
    · exact .named
    · rintro ⟨h⟩
      exact h
  | array items =>
    by_cases hlength : items.length ≤ 3
    · rw [ofDocument?_eq_some_iff_of_fields (fields?_array hlength)]
      constructor
      · exact .placed hlength
      · rintro (_ | ⟨_, h⟩)
        exact h
    · refine iff_of_false ?_ ?_
      · simp [ofDocument?, Shape.fields?, hlength]
      · rintro (_ | ⟨h, _⟩)
        exact hlength h
  | null | bool value | integer n | float x | text text => exact iff_of_false (by rintro ⟨⟩) (by rintro ⟨⟩)

end Signature

namespace Envelope

section Reading

variable {members : List (String × Document)}

theorem field_eq_ok_iff {α : Type} {name : EnvelopeField} {read : Document → Option α} {value : α} :
    field members name read = .ok value ↔ ∃ d, members.lookup name.name = some d ∧ read d = some value := by
  rw [field, ← Option.bind_eq_some_iff]
  split <;> simp [*]

private theorem isRead_field {α : Type} {name : EnvelopeField} {read : Document → Option α} {P : Document → Prop}
    (hread : ∀ d, (∃ value, read d = some value) ↔ P d)
    (hadmits : name.Admits (members.lookup name.name) ↔ ∃ d, members.lookup name.name = some d ∧ P d)
    (hrefusal : name.refusal (members.lookup name.name) = .missingField name) :
    name.IsRead (members.lookup name.name) (field members name read) := by
  rw [EnvelopeField.IsRead, hadmits, hrefusal, field]
  cases members.lookup name.name with
  | none => exact .inr ⟨rfl, by rintro ⟨d, ⟨⟩, -⟩⟩
  | some d =>
    rw [Option.bind_some]
    cases hvalue : read d with
    | some value => exact .inl ⟨⟨value, rfl⟩, d, rfl, (hread d).mp ⟨value, hvalue⟩⟩
    | none =>
      refine .inr ⟨rfl, ?_⟩
      rintro ⟨_, ⟨⟩, hd⟩
      obtain ⟨value, hsome⟩ := (hread d).mpr hd
      rw [hvalue] at hsome
      cases hsome

private theorem isRead_version :
    EnvelopeField.version.IsRead (members.lookup "v") (field members .version Document.uint32?) :=
  isRead_field (fun _ => Document.exists_uint32?_iff) Iff.rfl rfl

private theorem isRead_timestamp :
    EnvelopeField.timestamp.IsRead (members.lookup "ts") (field members .timestamp Document.uint64?) :=
  isRead_field (fun _ => Document.exists_uint64?_iff) Iff.rfl rfl

private theorem isRead_payload :
    EnvelopeField.payload.IsRead (members.lookup "payload") (field members .payload some) :=
  isRead_field (P := fun _ => True) (fun d => iff_of_true ⟨d, rfl⟩ trivial) (by simp [EnvelopeField.Admits]) rfl

private theorem isRead_sequence : EnvelopeField.sequence.IsRead (members.lookup "seq") (sequenceField members) := by
  rw [sequenceField]
  cases hfound : members.lookup EnvelopeField.sequence.name with
  | none =>
    rw [EnvelopeField.name] at hfound
    exact .inl ⟨⟨0, rfl⟩, by simp [EnvelopeField.Admits, hfound]⟩
  | some d =>
    refine isRead_field (fun _ => Document.exists_uint32?_iff) ?_ rfl
    simp [EnvelopeField.Admits, hfound]

private theorem isRead_kind : EnvelopeField.kind.IsRead (members.lookup "type") (kindField members) := by
  rw [kindField, field, EnvelopeField.name]
  cases members.lookup "type" with
  | none => exact .inr ⟨rfl, by simp [EnvelopeField.Admits]⟩
  | some d =>
    cases d with
    | text name =>
      have hnames : (∃ kind, MessageKind.ofName? name = some kind) ↔ name ∈ MessageKind.names :=
        MessageKind.exists_ofName?_iff
      simp only [Option.bind_some, Document.text?, bind, Except.bind]
      cases hkind : MessageKind.ofName? name with
      | some kind => exact .inl ⟨⟨kind, rfl⟩, name, hnames.mp ⟨kind, hkind⟩, rfl⟩
      | none =>
        refine .inr ⟨rfl, ?_⟩
        rintro ⟨_, hmem, ⟨⟩⟩
        obtain ⟨kind, hsome⟩ := hnames.mpr hmem
        rw [hkind] at hsome
        cases hsome
    | null | bool value | integer n | float x | array items | object members =>
      exact .inr ⟨rfl, by simp [EnvelopeField.Admits]⟩

theorem sequenceField_eq_ok_iff {n : UInt32} :
    sequenceField members = .ok n ↔
      members.lookup "seq" = some (.ofUInt32 n) ∨ members.lookup "seq" = none ∧ n = 0 := by
  rw [sequenceField]
  cases hfound : members.lookup EnvelopeField.sequence.name with
  | none =>
    rw [EnvelopeField.name] at hfound
    simp [hfound, eq_comm]
  | some d =>
    rw [field_eq_ok_iff, hfound]
    rw [EnvelopeField.name] at hfound
    simp [hfound, Document.uint32?_eq_some_iff]

theorem kindField_eq_ok_iff {kind : MessageKind} :
    kindField members = .ok kind ↔ members.lookup "type" = some (.text kind.name) := by
  rw [kindField, bind_eq_ok_iff]
  simp only [field_eq_ok_iff, Document.text?_eq_some_iff]
  constructor
  · rintro ⟨name, ⟨d, hd, rfl⟩, hkind⟩
    split at hkind
    · next hname =>
      cases hkind
      rw [← MessageKind.ofName?_eq_some_iff.mp hname]
      exact hd
    · cases hkind
  · intro h
    exact ⟨kind.name, ⟨_, h, rfl⟩, by rw [MessageKind.ofName?_name]⟩

theorem checkCrc_eq_ok {format : WireFormat} {payload : Document} {octets : Octets}
    (h : payload.write format = .ok octets) (crc : Option UInt32) :
    checkCrc format payload crc = .ok (crc = some (Checksum.crc32 octets)) := by
  cases crc with
  | none => rfl
  | some crc =>
    simp only [checkCrc, h, Option.some.injEq, eq_comm (a := crc)]
    rfl

private theorem valid_iff_of_checkCrc {format : WireFormat} {payload : Document} {crc : Option UInt32} {valid : Bool}
    (h : checkCrc format payload crc = .ok valid) :
    valid = true ↔ ∃ octets, payload.write format = .ok octets ∧ crc = some (Checksum.crc32 octets) := by
  cases crc with
  | none =>
    cases h
    simp
  | some crc =>
    obtain ⟨octets, hwritten, -⟩ := exists_of_bind_eq_ok h
    rw [checkCrc_eq_ok hwritten] at h
    cases h
    simp [hwritten]

end Reading

/-- What an envelope says of the members it was read from. A CRC counts where it is a number, and is right where it is
that of the payload, written again in the format of the envelope; a signature counts where it has its shape. -/
structure ReadFrom (members : List (String × Document)) (e : Envelope) : Prop where
  version : members.lookup "v" = some (.ofUInt32 e.version)
  kind : members.lookup "type" = some (.text e.kind.name)
  timestamp : members.lookup "ts" = some (.ofUInt64 e.timestamp)
  sequence : members.lookup "seq" = some (.ofUInt32 e.sequence) ∨ members.lookup "seq" = none ∧ e.sequence = 0
  payload : members.lookup "payload" = some e.payload
  crc : members.lookup "crc" = some (.ofUInt32 e.crc) ∨
    (∀ n : UInt32, members.lookup "crc" ≠ some (.ofUInt32 n)) ∧ e.crc = 0
  crcValid : e.crcValid = true ↔
    ∃ octets, e.payload.write e.format = .ok octets ∧
      members.lookup "crc" = some (.ofUInt32 (Checksum.crc32 octets))
  signature : ∀ s, e.signature = some s ↔ ∃ d, members.lookup "auth" = some d ∧ s.ShapedAs d

section Members

variable {format : WireFormat} {members : List (String × Document)} {e : Envelope}

theorem lookup_crc_iff {n : UInt32} :
    (members.lookup "crc").bind Document.uint32? = some n ↔ members.lookup "crc" = some (.ofUInt32 n) := by
  simp [Option.bind_eq_some_iff, Document.uint32?_eq_some_iff]

theorem getD_crc_eq_iff {n : UInt32} :
    ((members.lookup "crc").bind Document.uint32?).getD 0 = n ↔ members.lookup "crc" = some (.ofUInt32 n) ∨
      (∀ other : UInt32, members.lookup "crc" ≠ some (.ofUInt32 other)) ∧ n = 0 := by
  simp only [← lookup_crc_iff, ne_eq]
  cases (members.lookup "crc").bind Document.uint32? with
  | none => simp [eq_comm]
  | some crc => simp

theorem lookup_auth_iff {s : Signature} :
    (members.lookup "auth").bind Signature.ofDocument? = some s ↔
      ∃ d, members.lookup "auth" = some d ∧ s.ShapedAs d := by
  simp [Option.bind_eq_some_iff, Signature.ofDocument?_eq_some_iff]

theorem ReadFrom.admits (h : e.ReadFrom members) (field : EnvelopeField) :
    field.Admits (members.lookup field.name) := by
  cases field with
  | version => exact ⟨_, h.version, Document.exists_uint32?_iff.mp ⟨_, Document.uint32?_ofUInt32 _⟩⟩
  | kind => exact ⟨_, MessageKind.exists_ofName?_iff.mp ⟨_, MessageKind.ofName?_name _⟩, h.kind⟩
  | timestamp => exact ⟨_, h.timestamp, Document.exists_uint64?_iff.mp ⟨_, Document.uint64?_ofUInt64 _⟩⟩
  | sequence =>
    intro value hvalue
    rcases h.sequence with hfound | ⟨hnone, -⟩
    · cases hvalue.symm.trans hfound
      exact Document.exists_uint32?_iff.mp ⟨_, Document.uint32?_ofUInt32 _⟩
    · cases hvalue.symm.trans hnone
  | payload => exact ⟨_, h.payload⟩

theorem ReadFrom.ofMembers {octets : Octets} (h : e.ReadFrom members)
    (hwritten : e.payload.write e.format = .ok octets) : ofMembers e.format members = .ok e := by
  have hversion : field members .version Document.uint32? = .ok e.version :=
    field_eq_ok_iff.mpr ⟨_, h.version, Document.uint32?_ofUInt32 _⟩
  have htimestamp : field members .timestamp Document.uint64? = .ok e.timestamp :=
    field_eq_ok_iff.mpr ⟨_, h.timestamp, Document.uint64?_ofUInt64 _⟩
  have hpayload : field members .payload some = .ok e.payload := field_eq_ok_iff.mpr ⟨_, h.payload, rfl⟩
  have hcrc := getD_crc_eq_iff.mpr h.crc
  have hvalid : decide ((members.lookup "crc").bind Document.uint32? = some (Checksum.crc32 octets)) = e.crcValid := by
    rw [Bool.eq_iff_iff, decide_eq_true_eq, lookup_crc_iff, h.crcValid, hwritten]
    simp
  have hsignature : (members.lookup "auth").bind Signature.ofDocument? = e.signature := by
    refine Option.ext fun s => ?_
    rw [lookup_auth_iff, h.signature]
  rw [Envelope.ofMembers, hversion, kindField_eq_ok_iff.mpr h.kind, htimestamp,
    sequenceField_eq_ok_iff.mpr h.sequence, hpayload]
  simp only [bind, Except.bind, checkCrc_eq_ok hwritten, hvalid, pure, Except.pure, hcrc, hsignature]

theorem readFrom_of_ofMembers (h : ofMembers format members = .ok e) : e.format = format ∧ e.ReadFrom members := by
  rw [ofMembers] at h
  obtain ⟨version, hversion, h⟩ := exists_of_bind_eq_ok h
  obtain ⟨kind, hkind, h⟩ := exists_of_bind_eq_ok h
  obtain ⟨timestamp, htimestamp, h⟩ := exists_of_bind_eq_ok h
  obtain ⟨sequence, hsequence, h⟩ := exists_of_bind_eq_ok h
  obtain ⟨payload, hpayload, h⟩ := exists_of_bind_eq_ok h
  obtain ⟨valid, hvalid, h⟩ := exists_of_bind_eq_ok h
  cases h
  obtain ⟨_, hv, hversion⟩ := field_eq_ok_iff.mp hversion
  obtain ⟨_, hts, htimestamp⟩ := field_eq_ok_iff.mp htimestamp
  obtain ⟨_, hdocument, hpayload⟩ := field_eq_ok_iff.mp hpayload
  obtain rfl := Document.uint32?_eq_some_iff.mp hversion
  obtain rfl := Document.uint64?_eq_some_iff.mp htimestamp
  cases hpayload
  refine ⟨rfl, hv, kindField_eq_ok_iff.mp hkind, hts, sequenceField_eq_ok_iff.mp hsequence, hdocument,
    getD_crc_eq_iff.mp rfl, ?_, fun s => lookup_auth_iff⟩
  simp only [← lookup_crc_iff]
  exact valid_iff_of_checkCrc hvalid

/-- Members of which no envelope is made are refused for the first field that holds what it may not. -/
theorem exists_isFirstRefused
    (hwritten : ∀ payload, members.lookup "payload" = some payload → ∃ octets, payload.write format = .ok octets)
    {error : ProtocolError} (h : ofMembers format members = .error error) :
    ∃ field, EnvelopeField.IsFirstRefused members field ∧ error = field.refusal (members.lookup field.name) := by
  rw [ofMembers] at h
  have hbefore := EnvelopeField.admitBefore_zero members
  rcases isRead_version.cases_of_bind_eq_error h with ⟨hrefused, rfl⟩ | ⟨hversion, version, -, h⟩
  · exact ⟨.version, ⟨hrefused, hbefore⟩, rfl⟩
  replace hbefore := hbefore.step .version hversion
  rcases isRead_kind.cases_of_bind_eq_error h with ⟨hrefused, rfl⟩ | ⟨hkind, kind, -, h⟩
  · exact ⟨.kind, ⟨hrefused, hbefore⟩, rfl⟩
  replace hbefore := hbefore.step .kind hkind
  rcases isRead_timestamp.cases_of_bind_eq_error h with ⟨hrefused, rfl⟩ | ⟨htimestamp, timestamp, -, h⟩
  · exact ⟨.timestamp, ⟨hrefused, hbefore⟩, rfl⟩
  replace hbefore := hbefore.step .timestamp htimestamp
  rcases isRead_sequence.cases_of_bind_eq_error h with ⟨hrefused, rfl⟩ | ⟨hsequence, sequence, -, h⟩
  · exact ⟨.sequence, ⟨hrefused, hbefore⟩, rfl⟩
  replace hbefore := hbefore.step .sequence hsequence
  rcases isRead_payload.cases_of_bind_eq_error h with ⟨hrefused, rfl⟩ | ⟨-, payload, hpayload, h⟩
  · exact ⟨.payload, ⟨hrefused, hbefore⟩, rfl⟩
  -- All fields are there, and a payload that has octets is no reason to fail.
  obtain ⟨_, hfound, hpayload⟩ := field_eq_ok_iff.mp hpayload
  cases hpayload
  obtain ⟨octets, hoctets⟩ := hwritten _ hfound
  rcases error_of_bind_eq_error h with hfailed | ⟨valid, -, h⟩
  · rw [checkCrc_eq_ok hoctets] at hfailed
    cases hfailed
  · cases h

end Members
end Envelope
end FieldLink
