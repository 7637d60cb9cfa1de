import FieldLink.Proofs.CborNormalForm
import FieldLink.Proofs.CommandInverse
import FieldLink.Proofs.EnvelopeInverse

/-!
# Which envelopes go out in the format that is preferred

What is around a payload can always be written as CBOR, so that the payload alone decides; and a command has no
float that could be refused.
-/

namespace FieldLink

namespace Document

/-- Whether CBOR has an item for a document. -/
def HasItem (d : Document) : Prop := ∃ item, d.toCbor = .ok item

theorem hasItem_object {members : List (String × Document)} (h : ∀ member ∈ members, member.2.HasItem) :
    (object members).HasItem := by
  obtain ⟨entries, hentries⟩ := exists_membersToCbor h
  refine ⟨.map entries, ?_⟩
  rw [toCbor, hentries]
  rfl

private theorem hasItem_text (s : String) : (text s).HasItem := ⟨_, rfl⟩

private theorem hasItem_ofUInt64 (n : UInt64) : (ofUInt64 n).HasItem := ⟨_, rfl⟩

private theorem HasItem.exists_writeCbor {d : Document} (h : d.HasItem) : ∃ octets, d.writeCbor = .ok octets := by
  obtain ⟨item, hitem⟩ := h
  refine ⟨item.write, ?_⟩
  rw [writeCbor, hitem]
  rfl

end Document

open Document

theorem Signature.hasItem_toDocument (s : Signature) : s.toDocument.HasItem := by
  refine hasItem_object ?_
  obtain ⟨nonce, mac, algorithm⟩ := s
  cases algorithm <;> simp [members, hasItem_text]

namespace Envelope

variable (kind : MessageKind) (timestamp : UInt64) (sequence : UInt32) {payload : Document} (signature : Option Signature)

private theorem hasItem_wrap (h : payload.HasItem) (crc : UInt32) :
    (wrap kind timestamp sequence payload crc signature).HasItem := by
  refine hasItem_object ?_
  cases signature with
  | none => simp [h, ofUInt32, hasItem_text, hasItem_ofUInt64]
  | some s => simp [h, ofUInt32, hasItem_text, hasItem_ofUInt64, s.hasItem_toDocument]

private theorem exists_encodeCbor (h : payload.HasItem) :
    ∃ encoded, encodeCbor kind timestamp sequence payload signature = .ok encoded ∧ encoded.format = .cbor := by
  obtain ⟨octets, hpayload⟩ := h.exists_writeCbor
  obtain ⟨whole, hwhole⟩ :=
    (hasItem_wrap kind timestamp sequence signature h (Checksum.crc32 octets)).exists_writeCbor
  refine ⟨⟨whole, Checksum.crc32 octets, .cbor⟩, ?_, rfl⟩
  rw [encodeCbor, hpayload]
  simp only [bind, Except.bind, hwhole]
  rfl

/-- A payload that has an item is received in the format that was preferred. -/
theorem exists_decode_preferred (preferCbor : Bool) (hitem : payload.HasItem) (hnames : payload.HasDistinctNames)
    (hdepth : payload.depth ≤ 126) (hfits : payload.Fits) (hsignature : ∀ s, signature = some s → s.Fits) :
    ∃ e, decode (encode preferCbor kind timestamp sequence payload signature).octets = .ok e ∧
      e.Carries kind timestamp sequence payload signature ∧ e.format = if preferCbor then .cbor else .json := by
  cases preferCbor with
  | false =>
    exact ⟨_, decode_encodeJson kind timestamp sequence signature hnames hdepth,
      ⟨rfl, rfl, rfl, rfl, rfl, rfl, rfl⟩, rfl⟩
  | true =>
    obtain ⟨encoded, hencoded, hformat⟩ := exists_encodeCbor kind timestamp sequence signature hitem
    have hencode : encode true kind timestamp sequence payload signature = encoded := by
      simp only [encode, if_true, hencoded]
    rw [hencode]
    exact ⟨_, decode_encodeCbor kind timestamp sequence signature hnames hdepth hfits hsignature hencoded,
      ⟨rfl, rfl, rfl, rfl, rfl, rfl, rfl⟩, hformat⟩

end Envelope

/-- A command is made of names and whole numbers. -/
theorem Command.hasItem_toDocument (c : Command) : c.toDocument.HasItem := by
  have hduty (a : DutyAction) : a.toDocument.HasItem :=
    hasItem_object (by simp [ofUInt8, ofUInt16, hasItem_ofUInt64])
  have hfrequency (a : FrequencyAction) : a.toDocument.HasItem :=
    hasItem_object (by simp [ofUInt16, hasItem_ofUInt64])
  have hport (a : PortAction) : a.toDocument.HasItem :=
    hasItem_object (by simp [ofUInt16, hasItem_text, hasItem_ofUInt64])
  refine hasItem_object ?_
  simp only [List.mem_append, Option.mem_toList, Option.map_eq_some_iff]
  rintro member ((⟨a, -, rfl⟩ | ⟨a, -, rfl⟩) | ⟨a, -, rfl⟩)
  · exact hduty a
  · exact hfrequency a
  · exact hport a

end FieldLink
