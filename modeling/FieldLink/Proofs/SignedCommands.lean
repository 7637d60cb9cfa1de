import FieldLink.Proofs.AuthenticatorRuns
import FieldLink.Proofs.EnvelopeInverse

/-!
# Signed commands

What is signed with a key is accepted under the same key, whichever of the two formats carried it, and once
only. The tag is taken over the payload, and the payload comes back as it was; the nonce is remembered by its
octets, so that neither the envelope nor one that spells the nonce in other letters passes again.
-/

namespace FieldLink

private theorem Utf8.length_encodeChar_le (c : Char) : (encodeChar c).length ≤ 4 := by
  simp only [encodeChar]
  repeat' split
  all_goals simp

private theorem Utf8.length_encode_le (text : List Char) : (encode text).length ≤ 4 * text.length := by
  induction text with
  | nil => exact Nat.le_refl _
  | cons c text ih =>
    have hfirst := length_encodeChar_le c
    rw [encode_cons, List.length_append, List.length_cons]
    omega

namespace Hexadecimal

theorem fitsMemory_write (digit : Nat → Char) {octets : Octets} (h : octets.length < 2 ^ 61) :
    FitsMemory (String.ofList (write digit octets)) := by
  have hlength := Utf8.length_encode_le (write digit octets)
  rw [length_write] at hlength
  rw [FitsMemory, String.toList_ofList]
  omega

private theorem fitsMemory_encode {octets : Octets} (h : octets.length < 2 ^ 61) : FitsMemory (encode octets) :=
  fitsMemory_write lowerDigit h

private theorem toUpper_lowerDigit : ∀ n < 16, (lowerDigit n).toUpper = upperDigit n := by decide

private theorem toUpper_encode (octets : Octets) : (encode octets).toUpper = encodeUpper octets := by
  have hwrite : (write lowerDigit octets).map Char.toUpper = write upperDigit octets := by
    induction octets with
    | nil => rfl
    | cons octet octets ih =>
      have hlt : octet.toNat < 256 := octet.toNat_lt
      rw [write, List.map_cons, List.map_cons, ih, toUpper_lowerDigit _ (show octet.toNat / 16 < 16 by omega),
        toUpper_lowerDigit _ (Nat.mod_lt octet.toNat (by omega)), write]
  rw [String.toUpper, String.map_eq_internal, encode, String.toList_ofList, hwrite, encodeUpper]

end Hexadecimal

namespace Authenticator

def signatureOf (key : Key) (payload : Document) (version : UInt32) (timestamp : UInt64) (nonce : Octets) : Signature :=
  ⟨Hexadecimal.encode nonce, commandTag payload version timestamp nonce key.octets, some algorithm⟩

variable {a : Authenticator} {key : Key} {nonce : Octets} {payload : Document} {version : UInt32} {timestamp : UInt64}

theorem isNonce_draw (source : RandomSource) : NonceHistory.isNonce (source.draw signingNonceLength).1 = true := by
  rw [NonceHistory.isNonce_iff, RandomSource.length_draw]
  decide

theorem sign_of_key (hkey : a.key = some key) (hnonce : NonceHistory.isNonce nonce = true) :
    a.sign payload version timestamp nonce = .ok (signatureOf key payload version timestamp nonce) := by
  rw [sign, hkey]
  simp only [commandMac_eq_ok_iff.mpr ⟨hnonce, rfl⟩]
  rfl

theorem fits_signatureOf (hnonce : NonceHistory.isNonce nonce = true) :
    (signatureOf key payload version timestamp nonce).Fits := by
  have hlength := (NonceHistory.isNonce_iff.mp hnonce).2
  have htag := Hmac.length_sha256 key.octets (signedOctets payload version timestamp nonce)
  refine ⟨Hexadecimal.fitsMemory_encode (by omega), Hexadecimal.fitsMemory_encode (by omega), ?_⟩
  rintro name hname
  cases hname
  decide

private theorem isFresh_max {latest : UInt64} (h : isFresh latest timestamp = true) :
    isFresh (max latest timestamp) timestamp = true := by
  rw [isFresh_iff] at h ⊢
  rw [UInt64.toNat_max]
  rcases h with hzero | hle
  · rw [hzero, UInt64.toNat_zero]
    omega
  · omega

theorem validate_of_contains {e : Envelope} {spelt : String} (hkey : a.key = some key)
    (hsignature : e.signature = some { signatureOf key payload version timestamp nonce with nonce := spelt })
    (hspelt : Hexadecimal.decode? spelt = some nonce) (hfresh : isFresh a.latest e.timestamp = true)
    (hnonce : NonceHistory.isNonce nonce = true) (hknown : a.history.contains nonce = true) :
    (a.validate e).1 = .error .replayedNonce := by
  have hmac := utf8ByteSize_commandTag payload version timestamp nonce key.octets
  simp [validate, checkSignature, hsignature, signatureOf, hkey, hfresh, hmac, hspelt, hnonce, hknown]

section Carried

variable {kind : MessageKind} {sequence : UInt32} {e : Envelope}

/-- A signed payload is decoded with the signature that it was sent with. -/
theorem exists_decode_signed (preferCbor : Bool) (kind : MessageKind) (key : Key) (timestamp : UInt64)
    (sequence : UInt32) (hnames : payload.HasDistinctNames) (hdepth : payload.depth ≤ 126) (hfits : payload.Fits)
    (hnonce : NonceHistory.isNonce nonce = true) :
    ∃ e, Envelope.decode (Envelope.encode preferCbor kind timestamp sequence payload
        (some (signatureOf key payload version timestamp nonce))).octets = .ok e ∧
      e.Carries kind timestamp sequence payload (some (signatureOf key payload version timestamp nonce)) := by
  refine Envelope.exists_decode_encode preferCbor kind timestamp sequence _ hnames hdepth hfits ?_
  rintro s ⟨⟩
  exact fits_signatureOf hnonce

variable (hkey : a.key = some key)
  (hcarries : e.Carries kind timestamp sequence payload
    (some (signatureOf key payload Envelope.currentVersion timestamp nonce)))
  (hfresh : isFresh a.latest timestamp = true) (hnonce : NonceHistory.isNonce nonce = true)
include hkey hcarries hfresh hnonce

theorem validate_of_carries (hnew : a.history.contains nonce = false) :
    a.validate e = (.ok (), { a with
      latest := max a.latest timestamp
      history := a.history.record nonce timestamp }) := by
  have hsignature := hcarries.signature
  rw [← hcarries.payload, ← hcarries.version, ← hcarries.timestamp] at hsignature
  rw [← hcarries.timestamp] at hfresh ⊢
  exact validate_of_signed hkey hsignature hfresh hnonce hnew

end Carried

/-- A signed command passes under the key it was signed with, and neither it nor the same with the nonce in capital
letters passes again. -/
theorem signed_accepted_once (key : Key) {signer verifier : Authenticator} (hsigner : signer.key = some key)
    (hverifier : verifier.key = some key) (preferCbor : Bool) (timestamp : UInt64) (sequence : UInt32)
    {payload : Document} (hnames : payload.HasDistinctNames) (hdepth : payload.depth ≤ 126) (hfits : payload.Fits)
    {nonce : Octets} (hlower : 1 ≤ nonce.length) (hupper : nonce.length ≤ 16)
    (hfresh : verifier.latest = 0 ∨ verifier.latest.toNat ≤ timestamp.toNat + 60000)
    (hnew : verifier.history.contains nonce = false) :
    ∃ s e, signer.sign payload Envelope.currentVersion timestamp nonce = .ok s ∧
      Envelope.decode (Envelope.encode preferCbor .command timestamp sequence payload (some s)).octets = .ok e ∧
      e.Carries .command timestamp sequence payload (some s) ∧
      (verifier.validate e).1 = .ok () ∧
      ((verifier.validate e).2.validate e).1 = .error .replayedNonce ∧
      ((verifier.validate e).2.validate { e with signature := some { s with nonce := s.nonce.toUpper } }).1 =
        .error .replayedNonce := by
  have hnonce := NonceHistory.isNonce_iff.mpr ⟨hlower, hupper⟩
  have hpassing := (isFresh_iff _ _).mpr hfresh
  obtain ⟨e, hdecode, hcarries⟩ :=
    exists_decode_signed preferCbor .command key timestamp sequence hnames hdepth hfits hnonce
  have haccepted := validate_of_carries hverifier hcarries hpassing hnonce hnew
  have hknown := (NonceHistory.record_remembers hnonce hnew timestamp).contains
  have hagain : isFresh (max verifier.latest timestamp) e.timestamp = true := by
    rw [hcarries.timestamp]
    exact isFresh_max hpassing
  refine ⟨_, e, sign_of_key hsigner hnonce, hdecode, hcarries, ?_, ?_, ?_⟩
  · rw [haccepted]
  · rw [haccepted]
    exact validate_of_contains hverifier hcarries.signature (Hexadecimal.decode?_encode nonce) hagain hnonce hknown
  · rw [haccepted]
    refine validate_of_contains hverifier rfl ?_ hagain hnonce hknown
    rw [signatureOf, Hexadecimal.toUpper_encode]
    exact Hexadecimal.decode?_encodeUpper nonce

/-- The verifier is a minute ahead, which is as far as it may be, and remembers another nonce. The payload goes out as
CBOR and holds the reading 21.37 and a name beyond ASCII. -/
theorem signed_accepted_once_minute_ahead :
    let key : Key := ⟨List.replicate 32 0x5A, by decide⟩
    let signer : Authenticator := ⟨some key, .empty, 0⟩
    let verifier : Authenticator := ⟨some key, ⟨[⟨[0xAB], 1700000060000⟩], by decide⟩, 1700000060000⟩
    let payload : Document := .object [("pwm_freq", .object [("freq", .integer ⟨1000, by decide, by decide⟩)]),
      ("Höhe", .array [.float ⟨false, 0x40355EB851EB851F, by decide⟩])]
    ∃ s e, signer.sign payload Envelope.currentVersion 1700000000000 [0xAB, 0xCD] = .ok s ∧
      Envelope.decode (Envelope.encode true .command 1700000000000 9 payload (some s)).octets = .ok e ∧
      e.Carries .command 1700000000000 9 payload (some s) ∧
      (verifier.validate e).1 = .ok () ∧
      ((verifier.validate e).2.validate e).1 = .error .replayedNonce ∧
      ((verifier.validate e).2.validate { e with signature := some { s with nonce := s.nonce.toUpper } }).1 =
        .error .replayedNonce := by
  intro key signer verifier payload
  have hnames : payload.HasDistinctNames :=
    ⟨show ["pwm_freq", "Höhe"].Nodup by decide, ⟨show ["freq"].Nodup by decide, trivial, trivial⟩, ⟨trivial, trivial⟩,
      trivial⟩
  have hfits : payload.Fits :=
    ⟨show 2 < 2 ^ 64 by decide, show FitsMemory "pwm_freq" by decide,
      ⟨show 1 < 2 ^ 64 by decide, show FitsMemory "freq" by decide, trivial, trivial⟩, show FitsMemory "Höhe" by decide,
      ⟨show 1 < 2 ^ 64 by decide, trivial, trivial⟩, trivial⟩
  exact signed_accepted_once key rfl rfl true 1700000000000 9 hnames (show 2 ≤ 126 by decide) hfits (by decide)
    (by decide) (.inr (by decide)) (by decide)

end Authenticator
end FieldLink
