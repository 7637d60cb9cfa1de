import FieldLink.Proofs.AuthenticatorRuns

/-!
# What becomes of a command

There are eight checks in a fixed order, each with a condition of its own, and the verdict is the first of them
that fails. What an authenticator remembers moves apart from that: the watermark as soon as the time stamp has
passed, whatever the later checks say, and the history only when all have.
-/

namespace FieldLink.Authenticator

def openingChecks : List Rejection := [.missingSignature, .noKey, .staleTimestamp]

def signatureChecks : List Rejection :=
  [.unsupportedAlgorithm, .malformedMac, .malformedNonce, .replayedNonce, .macMismatch]

/-- All checks in their order. -/
def checks : List Rejection := openingChecks ++ signatureChecks

/-- Whether a check passes, on its own. One that has nothing to look at passes. -/
def passes (a : Authenticator) (e : Envelope) : Rejection → Bool
  | .missingSignature => e.signature.isSome
  | .noKey => a.key.isSome
  | .staleTimestamp => a.latest = 0 ∨ a.latest.toNat ≤ e.timestamp.toNat + 60000
  | .unsupportedAlgorithm => e.signature.all fun s => s.algorithm.all (· = "HS256")
  | .malformedMac => e.signature.all fun s => s.mac.utf8ByteSize = 64
  | .malformedNonce => e.nonce?.any fun nonce => 1 ≤ nonce.length ∧ nonce.length ≤ 16
  | .replayedNonce => e.nonce?.all fun nonce => a.history.entries.all (·.nonce ≠ nonce)
  | .macMismatch => e.signature.all fun s => a.key.all fun key => e.nonce?.all fun nonce =>
      s.mac = Hexadecimal.encode (Hmac.sha256 key.octets (signedOctets e.payload e.version e.timestamp nonce))

def firstFailure (a : Authenticator) (e : Envelope) (checks : List Rejection) : Option Rejection :=
  checks.find? fun check => !a.passes e check

def verdict : Option Rejection → Except Rejection Unit
  | some rejection => .error rejection
  | none => .ok ()

variable {a : Authenticator} {e : Envelope}

theorem firstFailure_nil : a.firstFailure e [] = none := rfl

theorem firstFailure_cons (check : Rejection) (rest : List Rejection) :
    a.firstFailure e (check :: rest) = if a.passes e check then a.firstFailure e rest else some check := by
  rw [firstFailure, List.find?_cons]
  cases a.passes e check <;> rfl

theorem firstFailure_append (first rest : List Rejection) :
    a.firstFailure e (first ++ rest) = (a.firstFailure e first).or (a.firstFailure e rest) :=
  List.find?_append

theorem firstFailure_eq_none_iff {checks : List Rejection} :
    a.firstFailure e checks = none ↔ ∀ check ∈ checks, a.passes e check = true := by
  simp [firstFailure]

section Signature

variable {s : Signature} {key : Key} (hsignature : e.signature = some s) (hkey : a.key = some key)
include hsignature

private theorem nonce?_of_signature : e.nonce? = Hexadecimal.decode? s.nonce := by
  rw [Envelope.nonce?, hsignature, Option.bind_some]

private theorem passes_algorithm : a.passes e .unsupportedAlgorithm = !s.algorithm.any (· ≠ algorithm) := by
  rw [passes, hsignature, Option.all_some]
  cases s.algorithm with
  | none => rfl
  | some name =>
    by_cases hname : name = "HS256" <;> simp [algorithm, hname]

private theorem passes_mac : a.passes e .malformedMac = decide (s.mac.utf8ByteSize = macLength) := by
  rw [passes, hsignature, Option.all_some, macLength]

private theorem passes_nonce {nonce : Octets} (hdecode : Hexadecimal.decode? s.nonce = some nonce) :
    a.passes e .malformedNonce = NonceHistory.isNonce nonce ∧
      a.passes e .replayedNonce = !a.history.contains nonce := by
  rw [passes, passes, nonce?_of_signature hsignature, hdecode, Option.any_some, Option.all_some]
  constructor
  · rw [Bool.eq_iff_iff, decide_eq_true_eq, NonceHistory.isNonce_iff]
  · rw [NonceHistory.contains, List.not_any_eq_all_not]
    simp only [decide_not, beq_eq_decide]

private theorem passes_tag (hkey : a.key = some key) {nonce : Octets}
    (hdecode : Hexadecimal.decode? s.nonce = some nonce) :
    a.passes e .macMismatch = decide (s.mac = commandTag e.payload e.version e.timestamp nonce key.octets) := by
  rw [passes, hsignature, hkey, nonce?_of_signature hsignature, hdecode]
  rfl

theorem checkSignature_verdict (hkey : a.key = some key) :
    (checkSignature key a.history e s).map (fun _ => ()) = verdict (a.firstFailure e signatureChecks) := by
  have halgorithm := passes_algorithm (a := a) hsignature
  have hmac := passes_mac (a := a) hsignature
  simp only [checkSignature, signatureChecks, firstFailure_cons, halgorithm, hmac]
  generalize s.algorithm.any (· ≠ algorithm) = unknown
  cases unknown with
  | true => rfl
  | false =>
    by_cases hlength : s.mac.utf8ByteSize = macLength
    · cases hdecode : Hexadecimal.decode? s.nonce with
      | none =>
        have hnonce : a.passes e .malformedNonce = false := by
          rw [passes, nonce?_of_signature hsignature, hdecode, Option.any_none]
        simp [hlength, hnonce, verdict, Except.map]
      | some nonce =>
        obtain ⟨hshape, hnew⟩ := passes_nonce (a := a) hsignature hdecode
        have htag := passes_tag hsignature hkey hdecode
        simp only [hlength, hshape, hnew, htag, eq_comm (a := s.mac)]
        cases NonceHistory.isNonce nonce with
        | false => rfl
        | true =>
          cases a.history.contains nonce with
          | true => rfl
          | false =>
            by_cases hsigned : commandTag e.payload e.version e.timestamp nonce key.octets = s.mac
            all_goals
              simp only [hsigned]
              rfl
    · simp [hlength, verdict, Except.map]

end Signature

private theorem passes_timestamp : a.passes e .staleTimestamp = isFresh a.latest e.timestamp := by
  rw [Bool.eq_iff_iff, isFresh_iff, passes, decide_eq_true_eq, replayWindow]

/-- A command is rejected for the first check that fails, and accepted where none does. -/
theorem validate_verdict (a : Authenticator) (e : Envelope) :
    (a.validate e).1 = verdict (a.firstFailure e checks) := by
  rw [checks, firstFailure_append]
  simp only [openingChecks, firstFailure_cons, passes_timestamp, validate]
  cases hsignature : e.signature with
  | none => simp [passes, hsignature, verdict]
  | some s =>
    have hpresent : a.passes e .missingSignature = true := by rw [passes, hsignature, Option.isSome_some]
    cases hkey : a.key with
    | none =>
      have hmissing : a.passes e .noKey = false := by rw [passes, hkey, Option.isSome_none]
      simp [hpresent, hmissing, verdict]
    | some key =>
      have hloaded : a.passes e .noKey = true := by rw [passes, hkey, Option.isSome_some]
      have hrest := checkSignature_verdict hsignature hkey
      simp only [hpresent, hloaded]
      cases hfresh : isFresh a.latest e.timestamp with
      | false => rfl
      | true =>
        -- The signature is checked beside the watermark that has moved already, and does not depend on it.
        simp only [if_true, firstFailure_nil, Option.none_or, ← hrest]
        cases checkSignature key a.history e s <;> rfl

theorem verdict_eq_ok_iff {failure : Option Rejection} : verdict failure = .ok () ↔ failure = none := by
  cases failure <;> simp [verdict]

theorem verdict_eq_error_iff {failure : Option Rejection} {rejection : Rejection} :
    verdict failure = .error rejection ↔ failure = some rejection := by
  cases failure <;> simp [verdict]

private theorem mem_checks (check : Rejection) : check ∈ checks := by cases check <;> decide

theorem validate_eq_ok_iff_passes : (a.validate e).1 = .ok () ↔ ∀ check, a.passes e check = true := by
  rw [validate_verdict, verdict_eq_ok_iff, firstFailure_eq_none_iff]
  exact ⟨fun h check => h check (mem_checks check), fun h check _ => h check⟩

/-- All that an accepted command has shown. Its tag has the right length by itself. -/
theorem validate_eq_ok_iff :
    (a.validate e).1 = .ok () ↔ ∃ s key nonce, e.signature = some s ∧ a.key = some key ∧
      (a.latest = 0 ∨ a.latest.toNat ≤ e.timestamp.toNat + 60000) ∧
      (s.algorithm = none ∨ s.algorithm = some "HS256") ∧
      Hexadecimal.decode? s.nonce = some nonce ∧ 1 ≤ nonce.length ∧ nonce.length ≤ 16 ∧
      (∀ entry ∈ a.history.entries, entry.nonce ≠ nonce) ∧
      commandMac e.payload e.version e.timestamp nonce key.octets = .ok s.mac := by
  rw [validate_eq_ok_iff_passes]
  constructor
  · intro hall
    obtain ⟨s, hsignature⟩ := Option.isSome_iff_exists.mp (hall .missingSignature)
    obtain ⟨key, hkey⟩ := Option.isSome_iff_exists.mp (hall .noKey)
    have hfresh := hall .staleTimestamp
    have halgorithm := hall .unsupportedAlgorithm
    have hshape := hall .malformedNonce
    have hnew := hall .replayedNonce
    have htag := hall .macMismatch
    cases hdecode : Hexadecimal.decode? s.nonce with
    | none =>
      rw [passes, nonce?_of_signature hsignature, hdecode] at hshape
      cases hshape
    | some nonce =>
      obtain ⟨hisNonce, hcontains⟩ := passes_nonce (a := a) hsignature hdecode
      rw [hisNonce] at hshape
      rw [hcontains, Bool.not_eq_true'] at hnew
      rw [passes_tag hsignature hkey hdecode, decide_eq_true_eq] at htag
      obtain ⟨hlower, hupper⟩ := NonceHistory.isNonce_iff.mp hshape
      refine ⟨s, key, nonce, hsignature, hkey, by simpa [passes] using hfresh, ?_, hdecode, hlower, hupper,
        NonceHistory.contains_eq_false_iff.mp hnew, commandMac_eq_ok_iff.mpr ⟨hshape, htag.symm⟩⟩
      rw [passes, hsignature, Option.all_some] at halgorithm
      cases hname : s.algorithm with
      | none => exact .inl rfl
      | some name => simpa [hname] using halgorithm
  · rintro ⟨s, key, nonce, hsignature, hkey, hfresh, halgorithm, hdecode, hlower, hupper, hnew, hmac⟩ check
    obtain ⟨hshape, htag⟩ := commandMac_eq_ok_iff.mp hmac
    obtain ⟨hisNonce, hcontains⟩ := passes_nonce (a := a) hsignature hdecode
    cases check with
    | missingSignature => rw [passes, hsignature, Option.isSome_some]
    | noKey => rw [passes, hkey, Option.isSome_some]
    | staleTimestamp => simpa [passes] using hfresh
    | unsupportedAlgorithm =>
      rw [passes, hsignature, Option.all_some]
      rcases halgorithm with hname | hname
      all_goals
        rw [hname]
        rfl
    | malformedMac => rw [passes_mac hsignature, ← htag, utf8ByteSize_commandTag, decide_eq_true rfl]
    | malformedNonce => rw [hisNonce, hshape]
    | replayedNonce => rw [hcontains, NonceHistory.contains_eq_false_iff.mpr hnew, Bool.not_false]
    | macMismatch => rw [passes_tag hsignature hkey hdecode, decide_eq_true htag.symm]

theorem validate_latest (a : Authenticator) (e : Envelope) :
    (a.validate e).2.latest =
      if e.signature.isSome = true ∧ a.key.isSome = true ∧
        (a.latest = 0 ∨ a.latest.toNat ≤ e.timestamp.toNat + 60000) then max a.latest e.timestamp else a.latest := by
  have hfreshness := isFresh_iff a.latest e.timestamp
  rw [replayWindow] at hfreshness
  simp only [← hfreshness, validate]
  cases e.signature with
  | none => simp
  | some s =>
    cases hkey : a.key with
    | none => simp
    | some key =>
      cases hfresh : isFresh a.latest e.timestamp with
      | false => simp
      | true =>
        simp only [if_true, Option.isSome_some, and_self]
        cases checkSignature key a.history e s <;> rfl

/-- Every command is judged by the first check that fails. An accepted one has shown all there is to show. Nothing
changes the key; the watermark moves with a fresh time stamp, whatever the later checks say, and the history only takes
the nonce of an accepted command. -/
theorem validate_judges (a : Authenticator) (e : Envelope) :
    ((a.validate e).1 = .ok () ↔ ∃ s key nonce, e.signature = some s ∧ a.key = some key ∧
      (a.latest = 0 ∨ a.latest.toNat ≤ e.timestamp.toNat + 60000) ∧
      (s.algorithm = none ∨ s.algorithm = some "HS256") ∧
      Hexadecimal.decode? s.nonce = some nonce ∧ 1 ≤ nonce.length ∧ nonce.length ≤ 16 ∧
      (∀ entry ∈ a.history.entries, entry.nonce ≠ nonce) ∧
      commandMac e.payload e.version e.timestamp nonce key.octets = .ok s.mac) ∧
    (∀ rejection, (a.validate e).1 = .error rejection ↔ a.firstFailure e checks = some rejection) ∧
    (a.validate e).2.key = a.key ∧
    ((a.validate e).2.latest =
      if e.signature.isSome = true ∧ a.key.isSome = true ∧
        (a.latest = 0 ∨ a.latest.toNat ≤ e.timestamp.toNat + 60000) then max a.latest e.timestamp else a.latest) ∧
    ((a.validate e).1 ≠ .ok () → (a.validate e).2.history = a.history) ∧
    ((a.validate e).1 = .ok () → ∃ nonce, e.nonce? = some nonce ∧
      (a.validate e).2.history = a.history.record nonce e.timestamp) := by
  refine ⟨validate_eq_ok_iff, ?_, validate_key a e, validate_latest a e, ?_, ?_⟩
  · intro rejection
    rw [validate_verdict, verdict_eq_error_iff]
  · intro hrefused
    cases hverdict : (a.validate e).1 with
    | error rejection => exact validate_history_of_error hverdict
    | ok => exact absurd hverdict hrefused
  · intro haccepted
    obtain ⟨nonce, hnonce, -, -, hrecord⟩ := validate_eq_ok haccepted
    exact ⟨nonce, hnonce, hrecord⟩

/-- Nothing about this signature is right, and the watermark moves all the same. -/
example :
    let key : Key := ⟨List.replicate 32 7, rfl⟩
    let a : Authenticator := ⟨some key, .empty, 1000⟩
    let e : Envelope := { signedCommand key [1] 5000 with signature := some ⟨"zz", "", some "none"⟩ }
    (a.validate e).1 = .error .unsupportedAlgorithm ∧ (a.validate e).2.latest = 5000 := by
  decide

end FieldLink.Authenticator
