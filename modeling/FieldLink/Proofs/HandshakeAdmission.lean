import FieldLink.NodeStart
import FieldLink.Proofs.CodeWindow
import FieldLink.Proofs.ConnectionKeys
import FieldLink.Proofs.Utf8Text

/-!
# Which requests are admitted

Each check of a request is an equivalence of its own, and a request is admitted just if all of them are right. A
token that is empty is also found in a header that has no token at all.
-/

namespace FieldLink

namespace Handshake

namespace Headers

theorem after?_eq_some_iff {front text rest : List Char} :
    after? front text = some rest ↔ text = front ++ rest := by
  induction front generalizing text with
  | nil => simp [after?]
  | cons c front ih =>
    cases text with
    | nil => simp [after?]
    | cons d text =>
      by_cases hsame : c = d
      · simp [after?, hsame, ih]
      · simp [after?, hsame, Ne.symm hsame]

theorem token?_eq_some_iff {h : Headers} {token : String} :
    h.token? = some token ↔ h.authorization = bearer token := by
  rw [token?, Option.map_eq_some_iff, bearer, ← String.toList_inj, String.toList_append]
  constructor
  · rintro ⟨rest, hrest, rfl⟩
    rw [String.toList_ofList]
    exact after?_eq_some_iff.mp hrest
  · intro hwhole
    exact ⟨token.toList, after?_eq_some_iff.mpr hwhole, String.ofList_toList⟩

/-- A header without a token passes for one with the empty token. -/
theorem token?_getD_eq_iff {h : Headers} {token : String} :
    h.token?.getD "" = token ↔
      h.authorization = bearer token ∨ token = "" ∧ ∀ other, h.authorization ≠ bearer other := by
  cases hfound : h.token? with
  | none =>
    have hnone (other : String) : h.authorization ≠ bearer other := by
      intro heq
      rw [token?_eq_some_iff.mpr heq] at hfound
      cases hfound
    simp [hnone, eq_comm]
  | some found =>
    have hsome := token?_eq_some_iff.mp hfound
    rw [Option.getD_some, ← token?_eq_some_iff, hfound, Option.some.injEq]
    refine (or_iff_left ?_).symm
    rintro ⟨-, hother⟩
    exact hother found hsome

end Headers

theorem valueOctets_eq_nil_iff {value : String} : valueOctets value = [] ↔ value = "" := by
  rw [valueOctets, Utf8.encode_eq_nil_iff, String.toList_eq_nil_iff]

/-- The one signature that is right is the keyed digest; nothing is signed without a key, a nonce and a value. -/
theorem verify_eq_true_iff {c : SecurityContext} {nonce value signature : Octets} :
    verify c nonce value signature = true ↔
      ∃ key, c.handshakeKey = some key ∧ nonce ≠ [] ∧ value ≠ [] ∧
        signature = Hmac.sha256 key.octets (nonce ++ value) := by
  rw [verify, sign]
  cases hkey : c.handshakeKey with
  | none => simp
  | some key =>
    by_cases hnonce : nonce = []
    · simp [hnonce]
    by_cases hvalue : value = []
    · simp [hnonce, hvalue]
    have hlength := Hmac.length_sha256 key.octets (nonce ++ value)
    simp only [Option.some.injEq, exists_eq_left', ne_eq, hnonce, hvalue, if_false, not_false_eq_true, true_and]
    constructor
    · intro h
      split at h
      · cases h
      · exact (eq_of_beq h).symm
    · rintro rfl
      simp [hlength, signatureLength]

end Handshake

theorem NonceCache.lookUp_eq_false_iff {c : NonceCache} {nonce : Octets} {now : UInt64} :
    (c.lookUp nonce now).1 = false ↔
      ∀ entry ∈ c.entries, now.toNat - entry.2.toNat ≤ c.window.toNat → entry.1 ≠ nonce := by
  simp only [lookUp, purge, isLive, List.any_eq_false, List.mem_filter, decide_eq_true_eq, beq_iff_eq, and_imp]

namespace Admission

theorem headerOctets_eq_ok_iff {value : Option String} {octets : Octets} :
    headerOctets value = .ok octets ↔ ∃ text, value = some text ∧ Hexadecimal.decode? text = some octets := by
  rw [← Option.bind_eq_some_iff, headerOctets]
  cases value.bind Hexadecimal.decode? <;> simp

theorem signedNonce_eq_ok_iff {c : SecurityContext} {h : Handshake.Headers} {nonce : Octets} :
    signedNonce c h = .ok nonce ↔
      headerOctets h.nonce = .ok nonce ∧ nonce.length = 16 ∧ h.authorization ≠ "" ∧
        ∃ key, c.handshakeKey = some key ∧ headerOctets h.signature =
          .ok (Hmac.sha256 key.octets (nonce ++ Handshake.valueOctets h.authorization)) := by
  rw [signedNonce, bind_eq_ok_iff]
  constructor
  · rintro ⟨found, hfound, hrest⟩
    obtain ⟨signature, hsignature, hrest⟩ := exists_of_bind_eq_ok hrest
    split at hrest
    · cases hrest
    · next hlength =>
      split at hrest
      · next hverify =>
        cases hrest
        obtain ⟨key, hkey, -, hvalue, rfl⟩ := Handshake.verify_eq_true_iff.mp hverify
        rw [ne_eq, Handshake.valueOctets_eq_nil_iff] at hvalue
        exact ⟨hfound, Decidable.not_not.mp hlength, hvalue, key, hkey, hsignature⟩
      · cases hrest
  · rintro ⟨hnonce, hlength, hvalue, key, hkey, hsignature⟩
    have hne : nonce ≠ [] := by
      rintro rfl
      cases hlength
    have hverify := Handshake.verify_eq_true_iff.mpr
      ⟨key, hkey, hne, mt Handshake.valueOctets_eq_nil_iff.mp hvalue, rfl⟩
    refine ⟨nonce, hnonce, bind_eq_ok_iff.mpr ⟨_, hsignature, ?_⟩⟩
    rw [if_neg (not_not_intro (show nonce.length = Handshake.nonceLength from hlength)), if_pos hverify]

theorem signedNonce_of_signed {c : SecurityContext} {h : Handshake.Headers} {key : Key} {nonce : Octets}
    (hkey : c.handshakeKey = some key) (hlength : nonce.length = 16) (hvalue : h.authorization ≠ "")
    (hnonce : h.nonce = some (Hexadecimal.encode nonce))
    (hsignature : h.signature =
      some (Hexadecimal.encode (Hmac.sha256 key.octets (nonce ++ Handshake.valueOctets h.authorization)))) :
    signedNonce c h = .ok nonce :=
  signedNonce_eq_ok_iff.mpr ⟨headerOctets_eq_ok_iff.mpr ⟨_, hnonce, Hexadecimal.decode?_encode _⟩, hlength, hvalue, key,
    hkey, headerOctets_eq_ok_iff.mpr ⟨_, hsignature, Hexadecimal.decode?_encode _⟩⟩

theorem checkCode_eq_ok_iff {c : SecurityContext} {h : Handshake.Headers} {time : UInt64} :
    checkCode c h time = .ok () ↔ ∀ codes, c.codes = some codes → ∃ text number, h.code = some text ∧
      NumberText.read? (2 ^ 32) (trim text.toList) = some number ∧ codes.check = .ok () ∧
        codes.InWindow time (.ofNat number) := by
  cases hcodes : c.codes with
  | none => simp [checkCode, hcodes]
  | some codes =>
    simp only [checkCode, hcodes, Option.isNone_some, Bool.false_eq_true, if_false, Option.some.injEq, forall_eq']
    constructor
    · intro hok
      split at hok
      · cases hok
      · next number hread =>
        obtain ⟨text, htext, hnumber⟩ := Option.bind_eq_some_iff.mp hread
        obtain ⟨accepted, hverify, hok⟩ := exists_of_bind_eq_ok hok
        split at hok
        · next haccepted =>
          rw [haccepted, SecurityContext.verifyCode_of_codes hcodes, mapError_eq_ok_iff] at hverify
          exact ⟨text, number, htext, hnumber, CodeSettings.verify_eq_ok_true_iff.mp hverify⟩
        · cases hok
    · rintro ⟨text, number, htext, hnumber, hwindow⟩
      have hverify : c.verifyCode time (.ofNat number) = .ok true := by
        rw [SecurityContext.verifyCode_of_codes hcodes, mapError_eq_ok_iff]
        exact CodeSettings.verify_eq_ok_true_iff.mpr hwindow
      rw [Option.bind_eq_some_iff.mpr ⟨text, htext, hnumber⟩]
      exact bind_eq_ok_iff.mpr ⟨true, hverify, rfl⟩

theorem judge_eq_ok_iff {a : Admission} {c : SecurityContext} {h : Handshake.Headers} {time now : UInt64} :
    (a.judge c h time now).1 = .ok () ↔
      h.token?.getD "" = a.token ∧
      (c.handshakeKey.isSome = true → ∃ nonce, signedNonce c h = .ok nonce ∧ (a.cache.lookUp nonce now).1 = false) ∧
      checkCode c h time = .ok () := by
  rw [judge]
  by_cases htoken : h.token?.getD "" = a.token
  · rw [if_neg (not_not_intro htoken)]
    cases hkey : c.handshakeKey with
    | none => simp [htoken]
    | some key =>
      cases hsigned : signedNonce c h with
      | error e => simp
      | ok nonce =>
        cases hused : a.cache.lookUp nonce now with
        | mk used cache =>
          cases used <;> cases hcode : checkCode c h time <;> simp [htoken, hused]
  · simp [htoken]

/-- What a request has shown that is admitted. -/
structure Shown (a : Admission) (c : SecurityContext) (h : Handshake.Headers) (time now : UInt64) : Prop where
  /-- The token, or nothing like a token where the empty one is expected. -/
  token : h.authorization = Handshake.bearer a.token ∨
    a.token = "" ∧ ∀ other, h.authorization ≠ Handshake.bearer other
  signature : ∀ key, c.handshakeKey = some key → h.authorization ≠ "" ∧ ∃ nonceText signatureText nonce,
    h.nonce = some nonceText ∧ Hexadecimal.decode? nonceText = some nonce ∧ nonce.length = 16 ∧
    (∀ entry ∈ a.cache.entries, now.toNat - entry.2.toNat ≤ a.cache.window.toNat → entry.1 ≠ nonce) ∧
    h.signature = some signatureText ∧ Hexadecimal.decode? signatureText =
      some (Hmac.sha256 key.octets (nonce ++ Handshake.valueOctets h.authorization))
  code : ∀ codes, c.codes = some codes → ∃ text number, h.code = some text ∧
    NumberText.read? (2 ^ 32) (trim text.toList) = some number ∧ codes.check = .ok () ∧
      codes.InWindow time (.ofNat number)

/-- Whatever the headers, the settings and the nonces remembered, a request is admitted just if it has shown all that
is asked of it. -/
theorem admitted_iff_shown (a : Admission) (c : SecurityContext) (h : Handshake.Headers) (time now : UInt64) :
    (a.judge c h time now).1 = .ok () ↔ a.Shown c h time now := by
  rw [judge_eq_ok_iff, Handshake.Headers.token?_getD_eq_iff, checkCode_eq_ok_iff]
  constructor
  · rintro ⟨htoken, hsigned, hcode⟩
    refine ⟨htoken, ?_, hcode⟩
    intro key hkey
    obtain ⟨nonce, hnonce, hnew⟩ := hsigned (by rw [hkey]; rfl)
    obtain ⟨hfound, hlength, hvalue, other, hother, hsignature⟩ := signedNonce_eq_ok_iff.mp hnonce
    obtain rfl : other = key := Option.some.inj (hother.symm.trans hkey)
    obtain ⟨nonceText, hnonceText, hdecode⟩ := headerOctets_eq_ok_iff.mp hfound
    obtain ⟨signatureText, hsignatureText, hdigest⟩ := headerOctets_eq_ok_iff.mp hsignature
    exact ⟨hvalue, nonceText, signatureText, nonce, hnonceText, hdecode, hlength,
      NonceCache.lookUp_eq_false_iff.mp hnew, hsignatureText, hdigest⟩
  · rintro ⟨htoken, hsigned, hcode⟩
    refine ⟨htoken, ?_, hcode⟩
    intro hsome
    obtain ⟨key, hkey⟩ := Option.isSome_iff_exists.mp hsome
    obtain ⟨hvalue, nonceText, signatureText, nonce, hnonceText, hdecode, hlength, hnew, hsignatureText, hdigest⟩ :=
      hsigned key hkey
    have hfound := headerOctets_eq_ok_iff.mpr ⟨nonceText, hnonceText, hdecode⟩
    have hsignature := headerOctets_eq_ok_iff.mpr ⟨signatureText, hsignatureText, hdigest⟩
    exact ⟨nonce, signedNonce_eq_ok_iff.mpr ⟨hfound, hlength, hvalue, key, hkey, hsignature⟩,
      NonceCache.lookUp_eq_false_iff.mpr hnew⟩

/-- A node that was not told a token admits a request that has none, although its header is not the one with the empty
token. -/
theorem default_node_admits_without_token :
    let node : NodeConfig := {}
    let request : Handshake.Headers := ⟨"Basic x", none, none, none⟩
    ∃ c, node.validate = .ok () ∧ node.securityContext = .ok c ∧
      (node.admission.judge c request 0 0).1 = .ok () ∧ request.authorization ≠ Handshake.bearer node.token := by
  refine ⟨.disabled, ?_, ?_, ?_, ?_⟩
  · rfl
  · rfl
  · rfl
  · decide

end Admission
end FieldLink
