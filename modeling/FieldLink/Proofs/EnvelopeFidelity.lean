import FieldLink.Proofs.EnvelopeInverse
import FieldLink.Proofs.NestingLimits

/-!
# Nothing but the message is decoded

Whatever is decoded from an encoded message is that message. The payload may be as deep as it likes: a decoder
can refuse it and nothing else. Lengths need no bound of their own, since an octet string is at least as long as
what it tells the length of.
-/

namespace FieldLink

namespace Cbor

theorem length_le_length_writeItems (items : List Cbor) : items.length ≤ (writeItems items).length := by
  induction items with
  | nil => exact Nat.le_refl _
  | cons item items ih =>
    have hpos := item.length_write_pos
    rw [writeItems, List.length_append, List.length_cons]
    omega

theorem length_le_length_writeEntries (entries : List (Cbor × Cbor)) :
    entries.length ≤ (writeEntries entries).length := by
  induction entries with
  | nil => exact Nat.le_refl _
  | cons entry entries ih =>
    obtain ⟨key, value⟩ := entry
    have hpos := key.length_write_pos
    rw [writeEntries, List.length_append, List.length_append, List.length_cons]
    omega

end Cbor

namespace Document

mutual

/-- A document whose octets can be counted in 64 bits has no length inside that cannot. -/
theorem fits_of_toCbor (d : Document) {item : Cbor} (h : d.toCbor = .ok item)
    (hlength : item.write.length < 2 ^ 64) : d.Fits := by
  cases d with
  | null | bool value | integer n | float x => trivial
  | text s =>
    cases h
    rw [Cbor.write, Cbor.writeText, List.length_append] at hlength
    exact Nat.lt_of_le_of_lt (Nat.le_add_left _ _) hlength
  | array items =>
    obtain ⟨read, hread, rfl⟩ := exists_of_toCbor_array h
    rw [Cbor.write, List.length_append] at hlength
    obtain ⟨hcount, hfits⟩ := itemsFit_of_itemsToCbor items hread (by omega)
    have hoctets := Cbor.length_le_length_writeItems read
    exact ⟨by omega, hfits⟩
  | object members =>
    obtain ⟨read, hread, rfl⟩ := exists_of_toCbor_object h
    rw [Cbor.write, List.length_append] at hlength
    obtain ⟨hcount, hfits⟩ := membersFit_of_membersToCbor members hread (by omega)
    have hoctets := Cbor.length_le_length_writeEntries read
    exact ⟨by omega, hfits⟩

private theorem itemsFit_of_itemsToCbor (items : List Document) {read : List Cbor} (h : itemsToCbor items = .ok read)
    (hlength : (Cbor.writeItems read).length < 2 ^ 64) : items.length = read.length ∧ ItemsFit items := by
  cases items with
  | nil =>
    cases h
    exact ⟨rfl, trivial⟩
  | cons item items =>
    obtain ⟨first, others, hfirst, hothers, rfl⟩ := exists_of_itemsToCbor_cons h
    rw [Cbor.writeItems, List.length_append] at hlength
    obtain ⟨hcount, hfits⟩ := itemsFit_of_itemsToCbor items hothers (by omega)
    refine ⟨?_, fits_of_toCbor item hfirst (by omega), hfits⟩
    rw [List.length_cons, List.length_cons, hcount]

private theorem membersFit_of_membersToCbor (members : List (String × Document)) {read : List (Cbor × Cbor)}
    (h : membersToCbor members = .ok read) (hlength : (Cbor.writeEntries read).length < 2 ^ 64) :
    members.length = read.length ∧ MembersFit members := by
  cases members with
  | nil =>
    cases h
    exact ⟨rfl, trivial⟩
  | cons member members =>
    obtain ⟨name, value⟩ := member
    obtain ⟨first, others, hfirst, hothers, rfl⟩ := exists_of_membersToCbor_cons h
    rw [Cbor.writeEntries, List.length_append, List.length_append, Cbor.write, Cbor.writeText,
      List.length_append] at hlength
    obtain ⟨hcount, hfits⟩ := membersFit_of_membersToCbor members hothers (by omega)
    refine ⟨?_, ?_, fits_of_toCbor value hfirst (by omega), hfits⟩
    · rw [List.length_cons, List.length_cons, hcount]
    · rw [FitsMemory]
      omega

end

theorem readJson?_of_continuation {first : UInt8} (hlower : 0x80 ≤ first.toNat) (hupper : first.toNat < 0xC0)
    (rest : Octets) : readJson? (first :: rest) = none := by
  have hchar : Utf8.decodeChar? (first :: rest) = none := by
    simp only [Utf8.decodeChar?, if_neg (Nat.not_lt.mpr hlower), if_pos hupper]
  have htext : Utf8.decode? (first :: rest) = none := by
    rw [Utf8.decode?]
    split
    · rfl
    · next h =>
      rw [hchar] at h
      cases h
  rw [readJson?, htext]
  rfl

end Document

namespace Cbor

private theorem exists_write_map (entries : List (Cbor × Cbor)) :
    ∃ first rest, (Cbor.map entries).write = first :: rest ∧ 0xA0 ≤ first.toNat ∧ first.toNat < 0xC0 := by
  obtain ⟨info, rest, hinfo, hhead⟩ := exists_head 5 entries.length
  refine ⟨UInt8.ofNat (32 * 5 + info), rest ++ writeEntries entries, ?_, ?_, ?_⟩
  · rw [write, hhead, List.cons_append]
  · rw [UInt8.toNat_ofNat']
    omega
  · rw [UInt8.toNat_ofNat']
    omega

private theorem read_write_map_eq (entries : List (Cbor × Cbor)) :
    WireDocument.read (Cbor.map entries).write =
      ((readMap (Cbor.map entries).write).map .cbor).mapError .neither := by
  obtain ⟨first, rest, hwrite, hlower, hupper⟩ := exists_write_map entries
  have hother : ¬(first = 0x7B ∨ first = 0x5B) := by
    rintro (rfl | rfl)
    all_goals exact absurd hlower (by decide)
  have hjson := Document.readJson?_of_continuation (Nat.le_trans (by decide) hlower) hupper rest
  rw [hwrite, WireDocument.read, if_neg hother, hjson]
  cases readMap (first :: rest) with
  | ok item => rfl
  | error refusal => rfl

private theorem eq_of_read_write_map {entries : List (Cbor × Cbor)} (hentries : (Cbor.map entries).Encodable)
    {wire : WireDocument} (h : WireDocument.read (Cbor.map entries).write = .ok wire) :
    wire = .cbor (.map entries) := by
  rw [read_write_map_eq, readMap] at h
  cases hread : CborReader.read? (Cbor.map entries).write with
  | none =>
    rw [hread] at h
    cases h
  | some read =>
    obtain rfl := CborReader.eq_of_read?_write hentries hread
    rw [hread] at h
    exact (Except.ok.inj h).symm

/-- The octets of a map are read as the map, unless it lies too deep. -/
theorem read_write_map {entries : List (Cbor × Cbor)} (h : (Cbor.map entries).Encodable)
    (hdepth : (Cbor.map entries).depth ≤ CborReader.maxDepth) :
    WireDocument.read (Cbor.map entries).write = .ok (.cbor (.map entries)) := by
  rw [read_write_map_eq, readMap, CborReader.read?_write h hdepth]
  rfl

end Cbor

namespace Envelope

variable {kind : MessageKind} {timestamp : UInt64} {sequence : UInt32} {payload : Document}
  {signature : Option Signature}

private theorem eq_of_decode_encodeJson (hnames : payload.HasDistinctNames) {e : Envelope}
    (h : decode (encodeJson kind timestamp sequence payload signature).octets = .ok e) :
    e = { version := currentVersion, kind, timestamp, sequence, payload
          crc := (encodeJson kind timestamp sequence payload signature).crc, crcValid := true
          format := .json, signature } := by
  have hcrc := checkCrc_crc32 (show payload.write .json = .ok payload.writeJson from rfl)
  simp only [encodeJson] at h ⊢
  generalize Checksum.crc32 payload.writeJson = crc at hcrc h
  obtain ⟨wire, hread, hrest⟩ := exists_of_bind_eq_ok h
  have hwrapped := wrap_hasDistinctNames kind timestamp sequence payload crc signature hnames
  have hwire : wire = .json (wrap kind timestamp sequence payload crc signature) := by
    obtain ⟨rest, hbrace⟩ : ∃ rest, (wrap kind timestamp sequence payload crc signature).writeJson =
        0x7B :: rest := ⟨_, rfl⟩
    rw [hbrace, WireDocument.read, if_pos (Or.inl rfl), ← hbrace] at hread
    cases hjson : Document.readJson? (wrap kind timestamp sequence payload crc signature).writeJson with
    | none =>
      rw [hjson] at hread
      cases hread
    | some document =>
      rw [hjson] at hread
      rw [← Except.ok.inj hread, Document.eq_of_readJson?_writeJson hwrapped hjson]
  subst hwire
  have hdecode := decode_of_read hread rfl hcrc
  rw [h] at hdecode
  exact Except.ok.inj hdecode

private theorem eq_of_decode_encodeCbor (hnames : payload.HasDistinctNames) {encoded : EncodedEnvelope}
    (hencoded : encodeCbor kind timestamp sequence payload signature = .ok encoded)
    (hlength : encoded.octets.length < 2 ^ 64) {e : Envelope} (h : decode encoded.octets = .ok e) :
    e = { version := currentVersion, kind, timestamp, sequence, payload, crc := encoded.crc, crcValid := true
          format := encoded.format, signature } := by
  rw [encodeCbor] at hencoded
  obtain ⟨octets, hpayload, hwhole⟩ := exists_of_bind_eq_ok hencoded
  have hcrc := checkCrc_of_writeCbor hpayload
  simp only at hwhole
  generalize Checksum.crc32 octets = crc at hcrc hwhole
  obtain ⟨whole, hwrite, hencoded⟩ := exists_of_bind_eq_ok hwhole
  cases hencoded
  obtain ⟨item, hitem, hwritten⟩ := exists_of_bind_eq_ok hwrite
  cases hwritten
  have hwrapped := wrap_hasDistinctNames kind timestamp sequence payload crc signature hnames
  have hfits := Document.fits_of_toCbor _ hitem hlength
  have hrepresents := Document.represents_of_toCbor _ hwrapped hfits hitem
  obtain ⟨entries, rfl⟩ : ∃ entries, item = .map entries := by
    obtain ⟨members, hmembers⟩ :
        ∃ members, wrap kind timestamp sequence payload crc signature = .object members := ⟨_, rfl⟩
    rw [hmembers] at hitem
    obtain ⟨entries, -, hmap⟩ := Document.exists_of_toCbor_object hitem
    exact ⟨entries, hmap⟩
  obtain ⟨wire, hread, hrest⟩ := exists_of_bind_eq_ok h
  obtain rfl := Cbor.eq_of_read_write_map hrepresents.encodable hread
  have hdocument : (WireDocument.cbor (.map entries)).toDocument =
      .ok (wrap kind timestamp sequence payload crc signature) := by
    rw [WireDocument.toDocument, hrepresents.toDocument]
    rfl
  have hdecode := decode_of_read hread hdocument hcrc
  rw [h] at hdecode
  exact Except.ok.inj hdecode

/-- Whatever is decoded from an encoded message is what was encoded. -/
theorem eq_of_decode_encode {preferCbor : Bool} (hnames : payload.HasDistinctNames)
    (hlength : (encode preferCbor kind timestamp sequence payload signature).octets.length < 2 ^ 64)
    {e : Envelope} (h : decode (encode preferCbor kind timestamp sequence payload signature).octets = .ok e) :
    e = { version := currentVersion, kind, timestamp, sequence, payload
          crc := (encode preferCbor kind timestamp sequence payload signature).crc, crcValid := true
          format := (encode preferCbor kind timestamp sequence payload signature).format, signature } := by
  cases preferCbor with
  | false => exact eq_of_decode_encodeJson hnames h
  | true =>
    cases hcbor : encodeCbor kind timestamp sequence payload signature with
    | ok encoded =>
      have hencode : encode true kind timestamp sequence payload signature = encoded := by
        simp only [encode, if_true, hcbor]
      rw [hencode] at hlength h ⊢
      exact eq_of_decode_encodeCbor hnames hcbor hlength h
    | error refusal =>
      have hencode : encode true kind timestamp sequence payload signature =
          encodeJson kind timestamp sequence payload signature := by
        simp only [encode, if_true, hcbor]
      rw [hencode] at h ⊢
      exact eq_of_decode_encodeJson hnames h

end Envelope
end FieldLink
