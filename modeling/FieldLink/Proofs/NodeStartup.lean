import FieldLink.NodeStart
import FieldLink.Proofs.AuthenticatorRuns
import FieldLink.Proofs.CodeWindow
import FieldLink.Proofs.ConnectionKeys
import Mathlib.Data.List.TakeWhile

/-!
# Nodes that start

A configuration passes just if every feature that it enables has what it needs. Under one that passes nothing
but the command key can be missing, and what is enabled is there: no feature is left out in silence.
-/

namespace FieldLink

private theorem isSpace_of_trim_eq_nil {text : List Char} (h : trim text = []) : ∀ c ∈ text, isSpace c = true := by
  rw [trim, trimEnd, List.reverse_eq_nil_iff, List.dropWhile_eq_nil_iff] at h
  have hrest : text.dropWhile isSpace = [] := by
    cases hdrop : text.dropWhile isSpace with
    | nil => rfl
    | cons c rest =>
      -- The first character that is left is none of the spaces.
      have hspace := h c (by simp [hdrop])
      have hfirst := List.head?_dropWhile_not isSpace text
      rw [hdrop, List.head?_cons] at hfirst
      simp [hspace] at hfirst
  exact List.dropWhile_eq_nil_iff.mp hrest

private theorem Base32.decode_of_blank {text : String} (h : trim text.toList = []) : decode text = .ok [] := by
  have hnone : significant text.toList = [] := by
    rw [significant, List.filter_eq_nil_iff.mpr]
    · rfl
    · intro c hc
      rw [isSpace_of_trim_eq_nil h c hc]
      decide
  rw [decode, hnone]
  rfl

namespace ProtectionConfig

/-- A feature that is enabled is without something it needs. -/
inductive Lacks (p : ProtectionConfig) : Prop where
  | secret (henabled : p.encryption = true ∨ p.handshake = true)
      (hsecret : trim p.secret.toList = [] ∨ Base64.decode? (trim p.secret.toList) = none ∨
        Base64.decode? (trim p.secret.toList) = some [])
  | seed (henabled : p.oneTimeCode = true)
      (hseed : trim p.seed.toList = [] ∨ (∃ fault, Base32.decode p.seed = .error fault) ∨
        Base32.decode p.seed = .ok [])
  | period (henabled : p.oneTimeCode = true) (hperiod : p.period = 0)
  | digits (henabled : p.oneTimeCode = true) (hdigits : p.digits < 6 ∨ 8 < p.digits)

variable {p : ProtectionConfig}

/-- A blank secret needs no case of its own, since a blank text decodes to nothing. -/
theorem secretOctets_eq_ok_iff {secret : Octets} :
    p.secretOctets = .ok secret ↔ Base64.decode? (trim p.secret.toList) = some secret ∧
      (p.encryption = true ∨ p.handshake = true → secret ≠ []) := by
  simp only [secretOctets, ← Bool.or_eq_true]
  generalize (p.encryption || p.handshake) = needed
  by_cases hblank : trim p.secret.toList = []
  · have hnothing : Base64.decode? [] = some [] := rfl
    rw [if_pos hblank, hblank, hnothing]
    cases needed <;> simp +contextual [eq_comm]
  · rw [if_neg hblank]
    cases hdecode : Base64.decode? (trim p.secret.toList) with
    | none => simp
    | some decoded =>
      simp only [Option.some.injEq]
      split
      · next hempty =>
        refine iff_of_false nofun ?_
        rintro ⟨rfl, hsecret⟩
        exact hsecret hempty.1 hempty.2
      · next hempty =>
        rw [Except.ok.injEq, iff_self_and]
        rintro rfl hneeded hnil
        exact hempty ⟨hneeded, hnil⟩

theorem codes_eq_ok_iff {codes : Option CodeSettings} :
    p.codes = .ok codes ↔ p.oneTimeCode = false ∧ codes = none ∨
      p.oneTimeCode = true ∧ ∃ seed, Base32.decode p.seed = .ok seed ∧
        CodeSettings.check ⟨seed, p.period, p.digits, p.window⟩ = .ok () ∧
        codes = some ⟨seed, p.period, p.digits, p.window⟩ := by
  rw [ProtectionConfig.codes]
  cases p.oneTimeCode with
  | false => simp [eq_comm]
  | true =>
    by_cases hblank : trim p.seed.toList = []
    · rw [Base32.decode_of_blank hblank]
      simp [hblank, CodeSettings.check_eq_ok_iff]
    · simp only [Bool.not_true, Bool.false_eq_true, if_false, if_neg hblank, bind_eq_ok_iff, mapError_eq_ok_iff,
        reduceCtorEq, false_and, true_and, false_or]
      constructor
      · rintro ⟨seed, hseed, ⟨⟩, hcheck, ⟨⟩⟩
        exact ⟨seed, hseed, hcheck, rfl⟩
      · rintro ⟨seed, hseed, hcheck, rfl⟩
        exact ⟨seed, hseed, (), hcheck, rfl⟩

end ProtectionConfig

namespace NodeConfig

/-- Every enabled feature has what it needs, and the secret can be read in any case. -/
structure Usable (c : NodeConfig) : Prop where
  secret : ∃ secret, Base64.decode? (trim c.protection.secret.toList) = some secret ∧
    (c.protection.encryption = true ∨ c.protection.handshake = true → secret ≠ [])
  codes : c.protection.oneTimeCode = true → ∃ seed, Base32.decode c.protection.seed = .ok seed ∧ seed ≠ [] ∧
    c.protection.period ≠ 0 ∧ 6 ≤ c.protection.digits ∧ c.protection.digits ≤ 8
  keyName : c.commandKey.enabled = true → c.commandKey.keyName ≠ ""

variable {c : NodeConfig}

theorem securitySettings_eq_ok_iff {settings : SecuritySettings} :
    c.securitySettings = .ok settings ↔ c.protection.secretOctets = .ok settings.secret ∧
      c.protection.codes = .ok settings.codes ∧ settings.encryption = c.protection.encryption ∧
      settings.handshake = c.protection.handshake ∧ settings.oneTimeCode = c.protection.oneTimeCode := by
  simp only [securitySettings, mapError_eq_ok_iff, bind_eq_ok_iff]
  constructor
  · rintro ⟨secret, hsecret, codes, hcodes, ⟨⟩⟩
    exact ⟨hsecret, hcodes, rfl, rfl, rfl⟩
  · rintro ⟨hsecret, hcodes, hencryption, hhandshake, honeTimeCode⟩
    refine ⟨_, hsecret, _, hcodes, ?_⟩
    rw [← hencryption, ← hhandshake, ← honeTimeCode]
    rfl

theorem validate_eq_ok_iff_settings :
    c.validate = .ok () ↔ (∃ settings, c.securitySettings = .ok settings) ∧
      (c.commandKey.enabled = true → c.commandKey.keyName ≠ "") := by
  rw [validate, bind_eq_ok_iff, ← exists_and_right]
  refine exists_congr fun settings => and_congr_right fun _ => ?_
  split
  · next hempty => simp [hempty]
  · next hnamed => simpa using hnamed

theorem validate_eq_ok_iff : c.validate = .ok () ↔ c.Usable := by
  rw [validate_eq_ok_iff_settings]
  constructor
  · rintro ⟨⟨settings, hsettings⟩, hname⟩
    obtain ⟨hsecret, hcodes, -⟩ := securitySettings_eq_ok_iff.mp hsettings
    refine ⟨⟨_, ProtectionConfig.secretOctets_eq_ok_iff.mp hsecret⟩, ?_, hname⟩
    intro hwanted
    rcases ProtectionConfig.codes_eq_ok_iff.mp hcodes with ⟨hunwanted, -⟩ | ⟨-, seed, hseed, hcheck, -⟩
    · rw [hwanted] at hunwanted
      cases hunwanted
    · exact ⟨seed, hseed, CodeSettings.check_eq_ok_iff.mp hcheck⟩
  · rintro ⟨⟨secret, hsecret⟩, hcodes, hname⟩
    refine ⟨?_, hname⟩
    obtain ⟨codes, hasked⟩ : ∃ codes, c.protection.codes = .ok codes := by
      cases hwanted : c.protection.oneTimeCode with
      | false => exact ⟨none, ProtectionConfig.codes_eq_ok_iff.mpr (.inl ⟨hwanted, rfl⟩)⟩
      | true =>
        obtain ⟨seed, hseed, hcheck⟩ := hcodes hwanted
        exact ⟨_, ProtectionConfig.codes_eq_ok_iff.mpr
          (.inr ⟨hwanted, seed, hseed, CodeSettings.check_eq_ok_iff.mpr hcheck, rfl⟩)⟩
    exact ⟨⟨_, _, _, secret, codes⟩, securitySettings_eq_ok_iff.mpr
      ⟨ProtectionConfig.secretOctets_eq_ok_iff.mpr hsecret, hasked, rfl, rfl, rfl⟩⟩

theorem exists_fault_of_validate (h : c.validate ≠ .ok ()) : ∃ fault, c.validate = .error (.settings fault) := by
  cases hvalidate : c.validate with
  | ok => exact absurd hvalidate h
  | error e =>
    rcases error_of_bind_eq_error hvalidate with hsettings | ⟨settings, -, hname⟩
    · obtain ⟨fault, -, rfl⟩ := exists_of_mapError_eq_error hsettings
      exact ⟨fault, rfl⟩
    · split at hname
      · cases hname
        exact ⟨_, rfl⟩
      · cases hname

theorem Usable.not_lacks (h : c.Usable) : ¬c.protection.Lacks := by
  obtain ⟨secret, hsecret, hnonempty⟩ := h.secret
  intro hlacks
  cases hlacks with
  | secret henabled hfault =>
    rcases hfault with hblank | hnone | hempty
    · rw [hblank] at hsecret
      cases hsecret
      exact hnonempty henabled rfl
    · rw [hnone] at hsecret
      cases hsecret
    · rw [hempty] at hsecret
      cases hsecret
      exact hnonempty henabled rfl
  | seed henabled hfault =>
    obtain ⟨seed, hseed, hnonempty, -⟩ := h.codes henabled
    rcases hfault with hblank | ⟨fault, hfault⟩ | hempty
    · rw [Base32.decode_of_blank hblank] at hseed
      cases hseed
      exact hnonempty rfl
    · rw [hfault] at hseed
      cases hseed
    · rw [hempty] at hseed
      cases hseed
      exact hnonempty rfl
  | period henabled hzero =>
    obtain ⟨seed, -, -, hperiod, -⟩ := h.codes henabled
    exact hperiod hzero
  | digits henabled houtside =>
    obtain ⟨seed, -, -, -, hlower, hupper⟩ := h.codes henabled
    rcases houtside with hbelow | habove
    · exact UInt32.not_le.mpr hbelow hlower
    · exact UInt32.not_le.mpr habove hupper

/-- The settings that are decoded make a context with just the features that are enabled. -/
theorem exists_context_of_validate (h : c.validate = .ok ()) : ∃ settings context,
    c.securitySettings = .ok settings ∧ SecurityContext.ofSettings settings = .ok context ∧
      context.frameKey.isSome = c.protection.encryption ∧ context.handshakeKey.isSome = c.protection.handshake ∧
      context.codes.isSome = c.protection.oneTimeCode := by
  obtain ⟨⟨settings, hsettings⟩, -⟩ := validate_eq_ok_iff_settings.mp h
  obtain ⟨hsecret, hcodes, hencryption, hhandshake, hwanted⟩ := securitySettings_eq_ok_iff.mp hsettings
  obtain ⟨-, hnonempty⟩ := ProtectionConfig.secretOctets_eq_ok_iff.mp hsecret
  rw [← hencryption, ← hhandshake] at hnonempty
  have hchecked : settings.oneTimeCode = true → ∃ codes, settings.codes = some codes ∧ codes.check = .ok () := by
    intro henabled
    rcases ProtectionConfig.codes_eq_ok_iff.mp hcodes with ⟨hoff, -⟩ | ⟨-, seed, -, hcheck, hcodes⟩
    · rw [← hwanted, henabled] at hoff
      cases hoff
    · exact ⟨_, hcodes, hcheck⟩
  obtain ⟨context, hcontext, hsigns, hencrypts, hasks⟩ := SecurityContext.exists_context hnonempty hchecked
  exact ⟨settings, context, hsettings, hcontext, hencrypts.trans hencryption, hsigns.trans hhandshake,
    hasks.trans hwanted⟩

def keyStore (c : NodeConfig) (files : FileTree) : SecretStore := .directory c.commandKey.directory files

/-- What comes of a start that finds no fault in its configuration. -/
inductive Started (c : NodeConfig) (context : SecurityContext) (files : FileTree) :
    Except SessionError Session → Prop where
  | unguarded (hdisabled : c.commandKey.enabled = false) :
    Started c context files (.ok (.start context c.preferCbor none))
  | guarded (henabled : c.commandKey.enabled = true) {key : Key}
      (hkey : (c.keyStore files).get c.commandKey.keyName = .ok key.octets) :
    Started c context files (.ok (.start context c.preferCbor (some ⟨some key, .empty, 0⟩)))
  | refused (henabled : c.commandKey.enabled = true) {e : SecurityError}
      (hload : (Authenticator.fresh.load (c.keyStore files) c.commandKey.keyName).1 = .error e)
      (hcause : (∃ fault, e = .keyStore fault) ∨ ∃ fault, e = .configuration fault) :
    Started c context files (.error (.security e))

theorem started_of_validate (h : c.validate = .ok ()) {context : SecurityContext}
    (hcontext : c.securityContext = .ok context) (files : FileTree) :
    c.Started context files (Session.ofConfig c files) := by
  have hsession : Session.ofConfig c files = (c.authenticator files).map (.start context c.preferCbor ·) := by
    simp only [Session.ofConfig, h, hcontext, bind, Except.bind, pure, Except.pure]
    cases c.authenticator files <;> rfl
  rw [hsession, authenticator]
  cases henabled : c.commandKey.enabled with
  | false => exact .unguarded henabled
  | true =>
    rcases Authenticator.fresh.load_cases (c.keyStore files) c.commandKey.keyName with
      ⟨key, hkey, hload⟩ | ⟨e, hload, hcause⟩
    · rw [keyStore] at hload
      simp only [if_true, hload]
      exact .guarded henabled hkey
    · rw [keyStore] at hload
      simp only [if_true, hload]
      exact .refused henabled (congrArg Prod.fst hload) hcause

/-- A configuration passes just if it is usable, and is refused for its settings where an enabled feature lacks
something. One that passes has a context with just the features that are enabled, which has a code for every time and an
answer to every code where codes are enabled. And a node starts under it with a session in this context, which checks
commands under the key from the store just if that is enabled, unless this key cannot be loaded. -/
theorem validate_decides (c : NodeConfig) :
    (c.validate = .ok () ↔ c.Usable) ∧
    (c.protection.Lacks → ∃ fault, c.validate = .error (.settings fault)) ∧
    (c.validate = .ok () → ∃ settings context, c.securitySettings = .ok settings ∧
      SecurityContext.ofSettings settings = .ok context ∧
      context.frameKey.isSome = c.protection.encryption ∧
      context.handshakeKey.isSome = c.protection.handshake ∧
      context.codes.isSome = c.protection.oneTimeCode ∧
      (c.protection.oneTimeCode = true → ∀ time, (∃ code, context.code time = .ok code) ∧
        ∀ code, ∃ accepted, context.verifyCode time code = .ok accepted) ∧
      ∀ files, c.Started context files (Session.ofConfig c files)) := by
  refine ⟨validate_eq_ok_iff, ?_, ?_⟩
  · intro hlacks
    refine exists_fault_of_validate fun hpasses => ?_
    exact (validate_eq_ok_iff.mp hpasses).not_lacks hlacks
  · intro hpasses
    obtain ⟨settings, context, hsettings, hcontext, hencrypts, hsigns, hasks⟩ := exists_context_of_validate hpasses
    refine ⟨settings, context, hsettings, hcontext, hencrypts, hsigns, hasks, ?_, ?_⟩
    · intro henabled time
      exact SecurityContext.codes_answer hcontext (hasks.trans henabled) time
    · have hmade : c.securityContext = .ok context := by
        rw [securityContext, bind_eq_ok_iff]
        exact ⟨settings, hsettings, mapError_eq_ok_iff.mpr hcontext⟩
      exact fun files => started_of_validate hpasses hmade files

/-- Everything is enabled, with spaces about the secret and within the seed. -/
example :
    let protection : ProtectionConfig :=
      { encryption := true, handshake := true, oneTimeCode := true, secret := " AAECAw== ", seed := "gezd gnbv" }
    NodeConfig.validate { protection, commandKey := { enabled := true } } = .ok () := by
  decide +kernel

end NodeConfig
end FieldLink
