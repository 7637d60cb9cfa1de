import FieldLink.Proofs.CommandInverse
import FieldLink.Proofs.Outcomes
import FieldLink.Proofs.SignedCommands
import FieldLink.Tool

/-!
# Commands that the diagnostic tool builds

One is built just if the key is one and the command can be carried out, and what is printed then is an envelope
with all that was asked for.
-/

namespace FieldLink

theorem Authenticator.withKey_eq_ok_iff {octets : Octets} {a : Authenticator} :
    withKey octets = .ok a ↔ ∃ key : Key, octets = key.octets ∧ a = { fresh with key := some key } := by
  constructor
  · intro h
    obtain ⟨key, hkey, hfresh⟩ := exists_of_bind_eq_ok h
    rw [keyOf] at hkey
    split at hkey
    · next found hfound =>
      cases hkey
      cases hfresh
      exact ⟨key, octets_of_ofOctets? hfound, rfl⟩
    · cases hkey
  · rintro ⟨key, rfl, rfl⟩
    rw [withKey, keyOf, ofOctets?_octets]
    rfl

namespace Tool

theorem secret_eq_ok_iff {text : String} {octets : Octets} :
    secret text = .ok octets ↔ octets? text = some octets ∧ octets ≠ [] := by
  rw [secret]
  split
  · next hnone => simp [hnone]
  · next hempty => simp [hempty]
  · next read hread hsome => grind

variable {r : CommandRequest} {now : UInt64} {source : RandomSource}

def signature (r : CommandRequest) (key : Key) (now : UInt64) (source : RandomSource) : Signature :=
  Authenticator.signatureOf key r.toCommand.toDocument Envelope.currentVersion (r.timestamp.getD now)
    (source.draw Authenticator.signingNonceLength).1

theorem buildCommand_eq_ok_iff {octets : Octets} :
    buildCommand r now source = .ok octets ↔
      ∃ key : Key, octets? r.key = some key.octets ∧ r.toCommand.fault? = none ∧
        octets = (Envelope.encode r.preferCbor .command (r.timestamp.getD now) r.sequence r.toCommand.toDocument
          (some (signature r key now source))).octets := by
  have hsign (key : Key) : ({ Authenticator.fresh with key := some key } : Authenticator).signFresh
      r.toCommand.toDocument Envelope.currentVersion (r.timestamp.getD now) source = .ok (signature r key now source) :=
    Authenticator.sign_of_key rfl (Authenticator.isNonce_draw source)
  constructor
  · intro h
    obtain ⟨read, hread, h⟩ := exists_of_bind_eq_ok h
    obtain ⟨signer, hsigner, h⟩ := exists_of_bind_eq_ok h
    obtain ⟨key, rfl, rfl⟩ := Authenticator.withKey_eq_ok_iff.mp (mapError_eq_ok_iff.mp hsigner)
    obtain ⟨payload, hpayload, h⟩ := exists_of_bind_eq_ok h
    have hpayload := mapError_eq_ok_iff.mp hpayload
    obtain rfl := Payload.eq_render_of_toDocument hpayload
    obtain ⟨signed, hsigned, h⟩ := exists_of_bind_eq_ok h
    obtain rfl := Except.ok.inj ((hsign key).symm.trans (mapError_eq_ok_iff.mp hsigned))
    cases h
    exact ⟨key, (secret_eq_ok_iff.mp hread).1, Payload.fault?_of_toDocument hpayload, rfl⟩
  · rintro ⟨key, hkey, hfault, rfl⟩
    have hread := secret_eq_ok_iff.mpr ⟨hkey, Authenticator.octets_ne_nil key⟩
    have hsigner := Authenticator.withKey_eq_ok_iff.mpr ⟨key, rfl, rfl⟩
    have hpayload : Payload.toDocument r.toCommand = .ok r.toCommand.toDocument := Payload.toDocument_of_fault? hfault
    simp only [buildCommand, bind_eq_ok_iff, mapError_eq_ok_iff]
    exact ⟨_, hread, _, hsigner, _, hpayload, _, hsign key, rfl⟩

theorem run_command_eq_ok_iff {clock : Clock} {output : String} :
    run clock source (.command r) = .ok output ↔
      ∃ octets, buildCommand r clock.milliseconds source = .ok octets ∧ Hexadecimal.encode octets = output := by
  rw [run]
  exact map_eq_ok_iff

theorem exists_run_command (key : Key) (hkey : octets? r.key = some key.octets) (hfault : r.toCommand.fault? = none)
    (clock : Clock) (source : RandomSource) : ∃ output, run clock source (.command r) = .ok output := by
  have hbuild : ∃ octets, buildCommand r clock.milliseconds source = .ok octets :=
    ⟨_, buildCommand_eq_ok_iff.mpr ⟨key, hkey, hfault, rfl⟩⟩
  obtain ⟨octets, hoctets⟩ := hbuild
  exact ⟨_, run_command_eq_ok_iff.mpr ⟨octets, hoctets, rfl⟩⟩

/-- What is printed for a command is an envelope that carries it. -/
theorem exists_decode_of_run_command {clock : Clock} {output : String}
    (h : run clock source (.command r) = .ok output) :
    ∃ (key : Key) (octets : Octets) (e : Envelope), octets? r.key = some key.octets ∧
      Hexadecimal.decode? output = some octets ∧ Envelope.decode octets = .ok e ∧
      e.Carries .command (r.timestamp.getD clock.milliseconds) r.sequence r.toCommand.toDocument
        (some (signature r key clock.milliseconds source)) := by
  obtain ⟨octets, hbuild, rfl⟩ := run_command_eq_ok_iff.mp h
  obtain ⟨key, hkey, -, rfl⟩ := buildCommand_eq_ok_iff.mp hbuild
  have hnames : r.toCommand.toDocument.HasDistinctNames := DistinctPayload.hasDistinctNames r.toCommand
  have hshallow := r.toCommand.isShallow_toDocument
  have hdepth : r.toCommand.toDocument.depth ≤ 126 := Nat.le_trans hshallow.depth_le (by decide)
  obtain ⟨e, hdecode, hcarries⟩ := Authenticator.exists_decode_signed r.preferCbor .command key
    (r.timestamp.getD clock.milliseconds) r.sequence hnames hdepth hshallow.fits (Authenticator.isNonce_draw source)
  exact ⟨key, _, e, hkey, Hexadecimal.decode?_encode _, hdecode, hcarries⟩

end Tool
end FieldLink
