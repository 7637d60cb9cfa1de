import FieldLink.SecurityContext
import FieldLink.Proofs.Outcomes

/-!
# What a connection has that was set up from settings

Each key is derived from the secret alone, the counter is at its start, and code settings were checked.
-/

namespace FieldLink.SecurityContext

variable {settings : SecuritySettings} {c : SecurityContext}

private theorem keyFor_ne_ok_of_empty {wanted : Bool} (hwanted : wanted = true) (label : Octets) (key : Option Key) :
    keyFor wanted [] label ≠ .ok key := by
  rw [keyFor, if_pos hwanted]
  nofun

theorem keyFor_of_ne {secret label : Octets} (hsecret : secret ≠ []) (hlabel : label ≠ []) :
    keyFor true secret label = .ok (some ⟨Hmac.sha256 secret label, Hmac.length_sha256 secret label⟩) := by
  rw [keyFor, if_pos rfl, Key.derive, if_neg hsecret, if_neg hlabel]
  rfl

theorem ofSettings_eq_ok_iff :
    ofSettings settings = .ok c ↔
      keyFor settings.handshake settings.secret Key.handshakeLabel = .ok c.handshakeKey ∧
      keyFor settings.encryption settings.secret Key.frameLabel = .ok c.frameKey ∧
      checkedCodes settings = .ok c.codes ∧ c.sent = 0 := by
  rw [ofSettings]
  split
  · next hempty =>
    -- Whichever of the keys is wanted, it is refused on its own.
    refine iff_of_false nofun ?_
    rintro ⟨hhandshake, hframe, -⟩
    rw [hempty.2] at hhandshake hframe
    rcases hempty.1 with hwanted | hwanted
    · exact keyFor_ne_ok_of_empty hwanted _ _ hframe
    · exact keyFor_ne_ok_of_empty hwanted _ _ hhandshake
  · rw [mapError_eq_ok_iff]
    constructor
    · intro h
      obtain ⟨handshakeKey, hhandshake, h⟩ := exists_of_bind_eq_ok h
      obtain ⟨frameKey, hframe, h⟩ := exists_of_bind_eq_ok h
      obtain ⟨codes, hcodes, h⟩ := exists_of_bind_eq_ok h
      cases h
      exact ⟨hhandshake, hframe, hcodes, rfl⟩
    · rintro ⟨hhandshake, hframe, hcodes, hsent⟩
      obtain ⟨handshakeKey, frameKey, sent, codes⟩ := c
      simp only at hhandshake hframe hcodes hsent
      simp only [hhandshake, hframe, hcodes, hsent, bind, Except.bind, pure, Except.pure]

theorem keyFor_of_ofSettings (h : ofSettings settings = .ok c) :
    keyFor settings.encryption settings.secret Key.frameLabel = .ok c.frameKey :=
  (ofSettings_eq_ok_iff.mp h).2.1

/-- A context that encrypts has the key that is derived from its secret. -/
theorem frameKey_of_ofSettings (hencryption : settings.encryption = true) (h : ofSettings settings = .ok c) :
    ∃ key, Key.derive settings.secret Key.frameLabel = .ok key ∧ c.frameKey = some key := by
  have hframe := keyFor_of_ofSettings h
  rw [keyFor, if_pos hencryption] at hframe
  cases hderive : Key.derive settings.secret Key.frameLabel with
  | error e =>
    rw [hderive] at hframe
    cases hframe
  | ok key =>
    rw [hderive] at hframe
    exact ⟨key, rfl, (Except.ok.inj hframe).symm⟩

theorem check_of_ofSettings (h : ofSettings settings = .ok c) {codes : CodeSettings} (hcodes : c.codes = some codes) :
    codes.check = .ok () := by
  have hchecked := (ofSettings_eq_ok_iff.mp h).2.2.1
  rw [hcodes, checkedCodes] at hchecked
  split at hchecked
  · split at hchecked
    · cases hchecked
    · next asked hasked =>
      cases hcheck : asked.check with
      | error e =>
        rw [hcheck] at hchecked
        cases hchecked
      | ok =>
        rw [hcheck] at hchecked
        cases hchecked
        exact hcheck
  · cases hchecked

theorem exists_ofSettings {secret : Octets} (h : secret ≠ []) :
    ∃ key, ofSettings ⟨true, false, false, secret, none⟩ = .ok ⟨none, some key, 0, none⟩ := by
  have hlabel : Key.frameLabel ≠ [] := by decide +kernel
  exact ⟨_, ofSettings_eq_ok_iff.mpr ⟨rfl, keyFor_of_ne h hlabel, rfl, rfl⟩⟩

private theorem exists_keyFor {wanted : Bool} {secret label : Octets} (hlabel : label ≠ [])
    (hsecret : wanted = true → secret ≠ []) : ∃ key, keyFor wanted secret label = .ok key ∧ key.isSome = wanted := by
  cases wanted with
  | false => exact ⟨none, rfl, rfl⟩
  | true => exact ⟨_, keyFor_of_ne (hsecret rfl) hlabel, rfl⟩

/-- What is enabled in a context is what its settings ask for. -/
theorem exists_context (hsecret : settings.encryption = true ∨ settings.handshake = true → settings.secret ≠ [])
    (hcodes : settings.oneTimeCode = true → ∃ codes, settings.codes = some codes ∧ codes.check = .ok ()) :
    ∃ c, ofSettings settings = .ok c ∧ c.handshakeKey.isSome = settings.handshake ∧
      c.frameKey.isSome = settings.encryption ∧ c.codes.isSome = settings.oneTimeCode := by
  have hhandshakeLabel : Key.handshakeLabel ≠ [] := by decide +kernel
  have hframeLabel : Key.frameLabel ≠ [] := by decide +kernel
  obtain ⟨handshakeKey, hhandshake, hsigns⟩ := exists_keyFor hhandshakeLabel fun hwanted => hsecret (.inr hwanted)
  obtain ⟨frameKey, hframe, hencrypts⟩ := exists_keyFor hframeLabel fun hwanted => hsecret (.inl hwanted)
  obtain ⟨codes, hchecked, hasks⟩ : ∃ codes, checkedCodes settings = .ok codes ∧
      codes.isSome = settings.oneTimeCode := by
    rw [checkedCodes]
    cases hwanted : settings.oneTimeCode with
    | false => exact ⟨none, rfl, rfl⟩
    | true =>
      obtain ⟨codes, hasked, hcheck⟩ := hcodes hwanted
      refine ⟨some codes, ?_, rfl⟩
      simp only [hasked, hcheck]
      rfl
  have hcontext : ofSettings settings = .ok ⟨handshakeKey, frameKey, 0, codes⟩ :=
    ofSettings_eq_ok_iff.mpr ⟨hhandshake, hframe, hchecked, rfl⟩
  exact ⟨_, hcontext, hsigns, hencrypts, hasks⟩

theorem code_of_check {codes : CodeSettings} (hcodes : c.codes = some codes) (hcheck : codes.check = .ok ())
    (time : UInt64) : c.code time = .ok (codes.codeAt time.toNat) := by
  have hcompute : codes.compute time = .ok (codes.codeAt time.toNat) := by
    rw [CodeSettings.compute, hcheck]
    rfl
  rw [code, enabledCodes, hcodes]
  exact mapError_eq_ok_iff.mpr hcompute

theorem verifyCode_of_codes {codes : CodeSettings} (hcodes : c.codes = some codes) (time : UInt64) (code : UInt32) :
    c.verifyCode time code = (codes.verify time code).mapError .invalidArgument := by
  rw [verifyCode, enabledCodes, hcodes]
  rfl

/-- With the codes of a context there is a code at every time, and an answer to every code. -/
theorem codes_answer (h : ofSettings settings = .ok c) (hcodes : c.codes.isSome = true) (time : UInt64) :
    (∃ code, c.code time = .ok code) ∧ ∀ code, ∃ accepted, c.verifyCode time code = .ok accepted := by
  obtain ⟨codes, hsome⟩ := Option.isSome_iff_exists.mp hcodes
  have hcheck := check_of_ofSettings h hsome
  refine ⟨⟨_, code_of_check hsome hcheck time⟩, ?_⟩
  intro code
  obtain ⟨accepted, hverify⟩ : ∃ accepted, codes.verify time code = .ok accepted := by
    rw [CodeSettings.verify, hcheck]
    exact ⟨_, rfl⟩
  refine ⟨accepted, ?_⟩
  rw [verifyCode_of_codes hsome, mapError_eq_ok_iff]
  exact hverify

end FieldLink.SecurityContext
