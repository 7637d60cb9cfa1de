import FieldLink.Authenticator
import FieldLink.Proofs.JsonBrackets
import FieldLink.Proofs.OctetNumbers

/-!
# What a tag is computed over

What a command's tag is computed over determines version, time stamp, nonce and payload. The nonce has no length
in front of it; but the payload is an object, and no part of a nonce can be moved into its text or out of it.
-/

namespace FieldLink

namespace Octets

private theorem bigEndian_append_inj {width m n : Nat} {rest rest' : Octets} (hm : m < 256 ^ width)
    (hn : n < 256 ^ width) (h : bigEndian width m ++ rest = bigEndian width n ++ rest') :
    m = n ∧ rest = rest' := by
  obtain ⟨hdigits, hrest⟩ := List.append_inj h (by rw [length_bigEndian, length_bigEndian])
  refine ⟨?_, hrest⟩
  rw [← toNat_bigEndian width m hm, hdigits, toNat_bigEndian width n hn]

end Octets

/-- Two commands, the payload of one being an object, have the same octets under their tags only if version,
time stamp, nonce and payload are the same. This holds of nonces of every length. -/
theorem signedOctets_eq_iff (members : List (String × Document)) (payload : Document)
    (version version' : UInt32) (timestamp timestamp' : UInt64) (nonce nonce' : Octets) :
    signedOctets (.object members) version timestamp nonce =
        signedOctets payload version' timestamp' nonce' ↔
      version = version' ∧ timestamp = timestamp' ∧ nonce = nonce' ∧ .object members = payload := by
  constructor
  · intro h
    simp only [signedOctets, List.append_assoc] at h
    obtain ⟨hversion, h⟩ := Octets.bigEndian_append_inj version.toNat_lt version'.toNat_lt h
    obtain ⟨htimestamp, h⟩ := Octets.bigEndian_append_inj timestamp.toNat_lt timestamp'.toNat_lt h
    obtain ⟨hnonce, hpayload⟩ := Document.append_writeJson_inj h
    exact ⟨UInt32.toNat_inj.1 hversion, UInt64.toNat_inj.1 htimestamp, hnonce, hpayload⟩
  · rintro ⟨rfl, rfl, rfl, rfl⟩
    rfl

end FieldLink
