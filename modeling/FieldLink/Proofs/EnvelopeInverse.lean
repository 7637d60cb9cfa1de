import FieldLink.Proofs.CborDocumentInverse
import FieldLink.Proofs.EnvelopeFields
import FieldLink.Proofs.JsonInverse

/-!
# Envelopes read back

An envelope is decoded to what was encoded, whichever of the two formats it went out in. Wrapping a payload adds
one level and no name twice, so that the reader of the format gives the wrapped document back; its fields are
then read one by one.
-/

namespace FieldLink

structure Signature.Fits (s : Signature) : Prop where
  nonce : FitsMemory s.nonce
  mac : FitsMemory s.mac
  algorithm : ∀ name, s.algorithm = some name → FitsMemory name

namespace Signature

@[simp] theorem ofDocument?_toDocument (s : Signature) : ofDocument? s.toDocument = some s := by
  obtain ⟨nonce, mac, algorithm⟩ := s
  cases algorithm with
  | none => rfl
  | some name => rfl

theorem hasDistinctNames_toDocument (s : Signature) : s.toDocument.HasDistinctNames := by
  obtain ⟨nonce, mac, algorithm⟩ := s
  cases algorithm with
  | none => exact ⟨show ["nonce", "mac"].Nodup by decide, trivial, trivial, trivial⟩
  | some name => exact ⟨show ["nonce", "mac", "alg"].Nodup by decide, trivial, trivial, trivial, trivial⟩

theorem depth_toDocument (s : Signature) : s.toDocument.depth = 1 := by
  obtain ⟨nonce, mac, algorithm⟩ := s
  cases algorithm with
  | none => rfl
  | some name => rfl

theorem Fits.toDocument {s : Signature} (h : s.Fits) : s.toDocument.Fits := by
  obtain ⟨nonce, mac, algorithm⟩ := s
  have hnames : FitsMemory "nonce" ∧ FitsMemory "mac" ∧ FitsMemory "alg" := by decide
  cases algorithm with
  | none => exact ⟨show 2 < 2 ^ 64 by decide, hnames.1, h.nonce, hnames.2.1, h.mac, trivial⟩
  | some name =>
    exact ⟨show 3 < 2 ^ 64 by decide, hnames.1, h.nonce, hnames.2.1, h.mac, hnames.2.2, h.algorithm name rfl,
      trivial⟩

end Signature

namespace Envelope

section Wrapping

variable (kind : MessageKind) (timestamp : UInt64) (sequence : UInt32) (payload : Document) (crc : UInt32)
  (signature : Option Signature)

theorem wrap_hasDistinctNames (h : payload.HasDistinctNames) :
    (wrap kind timestamp sequence payload crc signature).HasDistinctNames := by
  cases signature with
  | none =>
    exact ⟨show ["v", "type", "ts", "seq", "payload", "crc"].Nodup by decide, trivial, trivial, trivial,
      trivial, h, trivial, trivial⟩
  | some s =>
    exact ⟨show ["v", "type", "ts", "seq", "payload", "crc", "auth"].Nodup by decide, trivial, trivial, trivial,
      trivial, h, trivial, s.hasDistinctNames_toDocument, trivial⟩

private theorem depth_wrap :
    (wrap kind timestamp sequence payload crc signature).depth ≤ max payload.depth 1 + 1 := by
  cases signature with
  | none =>
    have hdepth : (wrap kind timestamp sequence payload crc none).depth =
        max 0 (max 0 (max 0 (max 0 (max payload.depth (max 0 0))))) + 1 := rfl
    omega
  | some s =>
    have hdepth : (wrap kind timestamp sequence payload crc (some s)).depth =
        max 0 (max 0 (max 0 (max 0 (max payload.depth (max 0 (max s.toDocument.depth 0)))))) + 1 := rfl
    rw [s.depth_toDocument] at hdepth
    omega

private theorem wrap_fits (h : payload.Fits) (hsignature : ∀ s, signature = some s → s.Fits) :
    (wrap kind timestamp sequence payload crc signature).Fits := by
  have hkind : FitsMemory kind.name := by cases kind <;> decide
  have hnames : FitsMemory "v" ∧ FitsMemory "type" ∧ FitsMemory "ts" ∧ FitsMemory "seq" ∧
      FitsMemory "payload" ∧ FitsMemory "crc" ∧ FitsMemory "auth" := by decide
  obtain ⟨hv, htype, hts, hseq, hpayload, hcrc, hauth⟩ := hnames
  cases signature with
  | none =>
    exact ⟨show 6 < 2 ^ 64 by decide, hv, trivial, htype, hkind, hts, trivial, hseq, trivial, hpayload, h, hcrc,
      trivial, trivial⟩
  | some s =>
    exact ⟨show 7 < 2 ^ 64 by decide, hv, trivial, htype, hkind, hts, trivial, hseq, trivial, hpayload, h, hcrc,
      trivial, hauth, (hsignature s rfl).toDocument, trivial⟩

theorem checkCrc_crc32 {format : WireFormat} {payload : Document} {octets : Octets}
    (h : payload.write format = .ok octets) :
    checkCrc format payload (some (Checksum.crc32 octets)) = .ok true := by
  rw [checkCrc_eq_ok h, decide_eq_true rfl]

theorem checkCrc_of_writeCbor {payload : Document} {octets : Octets} (h : payload.writeCbor = .ok octets) :
    checkCrc .cbor payload (some (Checksum.crc32 octets)) = .ok true := by
  apply checkCrc_crc32
  rw [Document.write, h]
  rfl

private theorem ofMembers_wrap {format : WireFormat} (h : checkCrc format payload (some crc) = .ok true) :
    ∃ members, wrap kind timestamp sequence payload crc signature = .object members ∧
      ofMembers format members = .ok {
        version := currentVersion, kind, timestamp, sequence, payload, crc, crcValid := true, format
        signature } := by
  obtain ⟨members, hmembers⟩ :
      ∃ members, wrap kind timestamp sequence payload crc signature = .object members := ⟨_, rfl⟩
  have hlookups : members.lookup "v" = some (.ofUInt32 currentVersion) ∧
      members.lookup "type" = some (.text kind.name) ∧
      members.lookup "ts" = some (.ofUInt64 timestamp) ∧
      members.lookup "seq" = some (.ofUInt32 sequence) ∧
      members.lookup "payload" = some payload ∧
      members.lookup "crc" = some (.ofUInt32 crc) ∧
      members.lookup "auth" = signature.map Signature.toDocument := by
    cases hmembers
    cases signature with
    | none => exact ⟨rfl, rfl, rfl, rfl, rfl, rfl, rfl⟩
    | some s => exact ⟨rfl, rfl, rfl, rfl, rfl, rfl, rfl⟩
  obtain ⟨hv, htype, hts, hseq, hpayload, hcrc, hauth⟩ := hlookups
  obtain ⟨octets, hwritten, -⟩ := exists_of_bind_eq_ok h
  rw [checkCrc_eq_ok hwritten, Except.ok.injEq, decide_eq_true_eq, Option.some.injEq] at h
  let e : Envelope := {
    version := currentVersion, kind, timestamp, sequence, payload, crc, crcValid := true, format, signature }
  have hread : e.ReadFrom members := by
    refine ⟨hv, htype, hts, .inl hseq, hpayload, .inl hcrc, iff_of_true rfl ⟨octets, hwritten, h ▸ hcrc⟩, ?_⟩
    intro s
    rw [← lookup_auth_iff, hauth]
    cases signature <;> simp [e]
  exact ⟨members, hmembers, hread.ofMembers hwritten⟩

end Wrapping

theorem read_writeJson {members : List (String × Document)}
    (hnames : (Document.object members).HasDistinctNames)
    (hdepth : (Document.object members).depth ≤ Json.maxDepth) :
    WireDocument.read (Document.object members).writeJson = .ok (.json (.object members)) := by
  obtain ⟨rest, hrest⟩ : ∃ rest, (Document.object members).writeJson = 0x7B :: rest := by
    cases members with
    | nil => exact ⟨_, rfl⟩
    | cons member members => exact ⟨_, rfl⟩
  have hread := Document.readJson?_writeJson hnames hdepth
  rw [hrest] at hread ⊢
  rw [WireDocument.read, if_pos (Or.inl rfl), hread]

/-- A map begins with neither brace nor bracket, and is read as CBOR. -/
theorem read_writeCbor {members : List (String × Document)} {octets : Octets}
    (hnames : (Document.object members).HasDistinctNames) (hfits : (Document.object members).Fits)
    (hdepth : (Document.object members).depth ≤ CborReader.maxDepth)
    (h : (Document.object members).writeCbor = .ok octets) :
    ∃ item, WireDocument.read octets = .ok (.cbor item) ∧ item.toDocument = .ok (.object members) := by
  obtain ⟨item, hitem, rfl, hread, hdocument⟩ := Document.read?_of_writeCbor hnames hfits hdepth h
  refine ⟨item, ?_, hdocument⟩
  rw [Document.toCbor] at hitem
  obtain ⟨entries, -, hmap⟩ := exists_of_bind_eq_ok hitem
  cases hmap
  obtain ⟨info, rest, hinfo, hfirst⟩ := Cbor.exists_head 5 entries.length
  have hsplit : (Cbor.map entries).write = UInt8.ofNat (32 * 5 + info) :: (rest ++ Cbor.writeEntries entries) := by
    rw [Cbor.write, hfirst, List.cons_append]
  have hreadMap : Cbor.readMap (Cbor.map entries).write = .ok (.map entries) := by
    rw [Cbor.readMap, hread]
    rfl
  rw [hsplit] at hreadMap ⊢
  have hvalue : (UInt8.ofNat (32 * 5 + info)).toNat = 160 + info := by
    rw [UInt8.toNat_ofNat']
    omega
  have hother : ¬(UInt8.ofNat (32 * 5 + info) = 0x7B ∨ UInt8.ofNat (32 * 5 + info) = 0x5B) := by
    rintro (heq | heq)
    all_goals
      rw [heq] at hvalue
      simp at hvalue
      omega
  rw [WireDocument.read, if_neg hother, hreadMap]

/-- Decoding a wrapped payload comes down to reading its document and checking its CRC. -/
theorem decode_of_read {octets : Octets} {wire : WireDocument} {kind : MessageKind} {timestamp : UInt64}
    {sequence : UInt32} {payload : Document} {crc : UInt32} {signature : Option Signature}
    (hread : WireDocument.read octets = .ok wire)
    (hdocument : wire.toDocument = .ok (wrap kind timestamp sequence payload crc signature))
    (hcrc : checkCrc wire.format payload (some crc) = .ok true) :
    decode octets = .ok {
      version := currentVersion, kind, timestamp, sequence, payload, crc, crcValid := true
      format := wire.format, signature } := by
  obtain ⟨members, hmembers, hfields⟩ := ofMembers_wrap kind timestamp sequence payload crc signature hcrc
  rw [hmembers] at hdocument
  rw [decode, hread]
  simp only [bind, Except.bind, hdocument]
  exact hfields

section Inverse

variable (kind : MessageKind) (timestamp : UInt64) (sequence : UInt32) {payload : Document}
  (signature : Option Signature)

theorem decode_encodeJson (hnames : payload.HasDistinctNames) (hdepth : payload.depth ≤ 126) :
    decode (encodeJson kind timestamp sequence payload signature).octets = .ok {
      version := currentVersion, kind, timestamp, sequence, payload
      crc := (encodeJson kind timestamp sequence payload signature).crc, crcValid := true
      format := .json, signature } := by
  have hcrc := checkCrc_crc32 (show payload.write .json = .ok payload.writeJson from rfl)
  simp only [encodeJson]
  generalize Checksum.crc32 payload.writeJson = crc at hcrc
  have hwrapped := wrap_hasDistinctNames kind timestamp sequence payload crc signature hnames
  have hlevels : (wrap kind timestamp sequence payload crc signature).depth ≤ Json.maxDepth := by
    have := depth_wrap kind timestamp sequence payload crc signature
    rw [Json.maxDepth]
    omega
  exact decode_of_read (read_writeJson hwrapped hlevels) rfl hcrc

theorem decode_encodeCbor (hnames : payload.HasDistinctNames) (hdepth : payload.depth ≤ 126)
    (hfits : payload.Fits) (hsignature : ∀ s, signature = some s → s.Fits) {encoded : EncodedEnvelope}
    (h : encodeCbor kind timestamp sequence payload signature = .ok encoded) :
    decode encoded.octets = .ok {
      version := currentVersion, kind, timestamp, sequence, payload, crc := encoded.crc, crcValid := true
      format := encoded.format, signature } := by
  rw [encodeCbor] at h
  obtain ⟨octets, hpayload, hwhole⟩ := exists_of_bind_eq_ok h
  have hcrc := checkCrc_of_writeCbor hpayload
  simp only at hwhole
  -- From here on the CRC is any number: both ends got it from the same octets.
  generalize Checksum.crc32 octets = crc at hcrc hwhole
  obtain ⟨whole, hwrite, hencoded⟩ := exists_of_bind_eq_ok hwhole
  cases hencoded
  have hwrapped := wrap_hasDistinctNames kind timestamp sequence payload crc signature hnames
  have hwholeFits := wrap_fits kind timestamp sequence payload crc signature hfits hsignature
  have hlevels : (wrap kind timestamp sequence payload crc signature).depth ≤ CborReader.maxDepth := by
    have := depth_wrap kind timestamp sequence payload crc signature
    rw [CborReader.maxDepth]
    omega
  obtain ⟨item, hread, hdocument⟩ := read_writeCbor hwrapped hwholeFits hlevels hwrite
  refine decode_of_read hread ?_ hcrc
  rw [WireDocument.toDocument, hdocument]
  rfl

end Inverse

structure Carries (e : Envelope) (kind : MessageKind) (timestamp : UInt64) (sequence : UInt32) (payload : Document)
    (signature : Option Signature) : Prop where
  version : e.version = currentVersion
  kind : e.kind = kind
  timestamp : e.timestamp = timestamp
  sequence : e.sequence = sequence
  payload : e.payload = payload
  crcValid : e.crcValid = true
  signature : e.signature = signature

private theorem encode_cases (preferCbor : Bool) (kind : MessageKind) (timestamp : UInt64) (sequence : UInt32)
    (payload : Document) (signature : Option Signature) :
    encode preferCbor kind timestamp sequence payload signature =
        encodeJson kind timestamp sequence payload signature ∨
      encodeCbor kind timestamp sequence payload signature =
        .ok (encode preferCbor kind timestamp sequence payload signature) := by
  cases preferCbor with
  | false => exact .inl rfl
  | true =>
    rw [encode, if_pos rfl]
    cases encodeCbor kind timestamp sequence payload signature with
    | ok encoded => exact .inr rfl
    | error refusal => exact .inl rfl

theorem exists_decode_encode (preferCbor : Bool) (kind : MessageKind) (timestamp : UInt64) (sequence : UInt32)
    {payload : Document} (signature : Option Signature) (hnames : payload.HasDistinctNames)
    (hdepth : payload.depth ≤ 126) (hfits : payload.Fits) (hsignature : ∀ s, signature = some s → s.Fits) :
    ∃ e, decode (encode preferCbor kind timestamp sequence payload signature).octets = .ok e ∧
      e.Carries kind timestamp sequence payload signature := by
  rcases encode_cases preferCbor kind timestamp sequence payload signature with hjson | hcbor
  · rw [hjson]
    exact ⟨_, decode_encodeJson kind timestamp sequence signature hnames hdepth, rfl, rfl, rfl, rfl, rfl, rfl, rfl⟩
  · exact ⟨_, decode_encodeCbor kind timestamp sequence signature hnames hdepth hfits hsignature hcbor, rfl, rfl, rfl,
      rfl, rfl, rfl, rfl⟩

/-- Decoding gives back what was encoded, in the format that the encoder chose. -/
theorem decode_encode_inverse (preferCbor : Bool) (kind : MessageKind) (timestamp : UInt64) (sequence : UInt32)
    (payload : Document) (signature : Option Signature) (hnames : payload.HasDistinctNames)
    (hdepth : payload.depth ≤ 126) (hfits : payload.Fits) (hsignature : ∀ s, signature = some s → s.Fits) :
    let encoded := encode preferCbor kind timestamp sequence payload signature
    decode encoded.octets = .ok {
      version := 1, kind, timestamp, sequence, payload, crc := encoded.crc, crcValid := true
      format := encoded.format, signature } := by
  intro encoded
  have hjson := decode_encodeJson kind timestamp sequence signature hnames hdepth
  cases preferCbor with
  | false => exact hjson
  | true =>
    cases hcbor : encodeCbor kind timestamp sequence payload signature with
    | ok sent =>
      have hencoded : encoded = sent := by
        simp only [encoded, encode, if_true, hcbor]
      rw [hencoded]
      exact decode_encodeCbor kind timestamp sequence signature hnames hdepth hfits hsignature hcbor
    | error refusal =>
      have hencoded : encoded = encodeJson kind timestamp sequence payload signature := by
        simp only [encoded, encode, if_true, hcbor]
      rw [hencoded]
      exact hjson

/-- The negative zero, a reading, the least integer, a control character and a letter beyond ASCII come back
with a signature; the second float is a single whose shortest decimal is another number. -/
theorem decode_encode_inverse_nested :
    let payload : Document := .object [
      ("readings", .array [.float ⟨true, 0, by decide⟩, .float ⟨false, 4591870180174331904, by decide⟩]),
      ("limits", .object [("low", .integer ⟨-2 ^ 63, by decide, by decide⟩), ("high", .null)]),
      ("note", .text "21.37 °C\n\x01")]
    let encoded := encode true .command 1700000000000 7 payload (some ⟨"00ff", "ab", none⟩)
    decode encoded.octets = .ok {
      version := 1, kind := .command, timestamp := 1700000000000, sequence := 7, payload
      crc := encoded.crc, crcValid := true, format := encoded.format
      signature := some ⟨"00ff", "ab", none⟩ } := by
  intro payload encoded
  apply decode_encode_inverse
  · exact ⟨show ["readings", "limits", "note"].Nodup by decide, ⟨trivial, trivial, trivial⟩,
      ⟨show ["low", "high"].Nodup by decide, trivial, trivial, trivial⟩, trivial, trivial⟩
  · show 2 ≤ 126
    decide
  · exact ⟨show 3 < 2 ^ 64 by decide, show FitsMemory "readings" by decide,
      ⟨show 2 < 2 ^ 64 by decide, trivial, trivial, trivial⟩, show FitsMemory "limits" by decide,
      ⟨show 2 < 2 ^ 64 by decide, show FitsMemory "low" by decide, trivial, show FitsMemory "high" by decide,
        trivial, trivial⟩,
      show FitsMemory "note" by decide, show FitsMemory "21.37 °C\n\x01" by decide, trivial⟩
  · rintro s hs
    cases hs
    exact ⟨by decide, by decide, by simp⟩

end Envelope
end FieldLink
