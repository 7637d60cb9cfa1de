import FieldLink.Authenticator
import FieldLink.Proofs.NonceEviction

/-!
# Replay of signed commands

An accepted nonce is refused for as long as it is remembered. It is remembered through fewer than eight further
acceptances, less those entries of the history that outlast it from the start; a nonce with an old time stamp
may be forgotten at once.
-/

namespace FieldLink

def Envelope.nonce? (e : Envelope) : Option Octets :=
  e.signature.bind fun s => Hexadecimal.decode? s.nonce

namespace Authenticator

/-- One call that changes an authenticator. -/
inductive Call where
  | setKey (octets : Octets)
  | forgetKey
  | resetHistory
  | load (store : SecretStore) (name : String)
  | validate (e : Envelope)

def Call.apply : Call → Authenticator → Authenticator
  | setKey octets, a => (a.setKey octets).2
  | forgetKey, a => a.forgetKey
  | resetHistory, a => a.resetHistory
  | load store name, a => (a.load store name).2
  | validate e, a => (a.validate e).2

def reached (calls : List Call) : Authenticator := calls.foldl (fun a call => call.apply a) fresh

/-- Validates envelopes one after another: those that were accepted, and the authenticator after them. -/
def validateAll (a : Authenticator) : List Envelope → List Envelope × Authenticator
  | [] => ([], a)
  | e :: rest =>
    let (verdict, a) := a.validate e
    let (accepted, a) := a.validateAll rest
    match verdict with
    | .ok () => (e :: accepted, a)
    | .error _ => (accepted, a)

variable {a : Authenticator} {key : Key} {history : NonceHistory} {e : Envelope} {s : Signature}

theorem checkSignature_eq_ok {nonce : Octets} (h : checkSignature key history e s = .ok nonce) :
    Hexadecimal.decode? s.nonce = some nonce ∧ NonceHistory.isNonce nonce ∧
      history.contains nonce = false ∧
      commandTag e.payload e.version e.timestamp nonce key.octets = s.mac := by
  unfold checkSignature at h
  split at h
  · cases h
  · split at h
    · cases h
    · split at h
      · cases h
      · next decoded hdecode =>
        split at h
        · cases h
        · next hshape =>
          split at h
          · cases h
          · next hnew =>
            split at h
            · next htag =>
              cases h
              exact ⟨hdecode, by simpa using hshape, by simpa using hnew, htag⟩
            · cases h

/-- A step of validation rejects and moves the watermark at most, or accepts a checked signature and records
its nonce. -/
theorem validate_cases (a : Authenticator) (e : Envelope) :
    (∃ rejection latest, a.validate e = (.error rejection, { a with latest })) ∨
      ∃ s key nonce, e.signature = some s ∧ a.key = some key ∧ isFresh a.latest e.timestamp ∧
        checkSignature key a.history e s = .ok nonce ∧
        a.validate e = (.ok (), { a with
          latest := max a.latest e.timestamp
          history := a.history.record nonce e.timestamp }) := by
  obtain ⟨stored, history, latest⟩ := a
  cases hsignature : e.signature with
  | none => exact .inl ⟨.missingSignature, latest, by simp [validate, hsignature]⟩
  | some s =>
    cases stored with
    | none => exact .inl ⟨.noKey, latest, by simp [validate, hsignature]⟩
    | some key =>
      by_cases hfresh : isFresh latest e.timestamp
      · cases hcheck : checkSignature key history e s with
        | error rejection =>
          refine .inl ⟨rejection, max latest e.timestamp, ?_⟩
          simp [validate, hsignature, hfresh, hcheck]
        | ok nonce =>
          refine .inr ⟨s, key, nonce, rfl, rfl, hfresh, hcheck, ?_⟩
          simp [validate, hsignature, hfresh, hcheck]
      · exact .inl ⟨.staleTimestamp, latest, by simp [validate, hsignature, hfresh]⟩

theorem validate_eq_ok (h : (a.validate e).1 = .ok ()) :
    ∃ nonce, e.nonce? = some nonce ∧ NonceHistory.isNonce nonce ∧ a.history.contains nonce = false ∧
      (a.validate e).2.history = a.history.record nonce e.timestamp := by
  rcases validate_cases a e with ⟨rejection, latest, hstep⟩ | ⟨s, key, nonce, hsignature, -, -, hcheck, hstep⟩
  · rw [hstep] at h
    cases h
  · obtain ⟨hdecode, hnonce, hnew, -⟩ := checkSignature_eq_ok hcheck
    exact ⟨nonce, by simp [Envelope.nonce?, hsignature, hdecode], hnonce, hnew, by rw [hstep]⟩

theorem validate_history_of_error {rejection : Rejection}
    (h : (a.validate e).1 = .error rejection) : (a.validate e).2.history = a.history := by
  rcases validate_cases a e with ⟨rejection, latest, hstep⟩ | ⟨s, key, nonce, -, -, -, -, hstep⟩
  · rw [hstep]
  · rw [hstep] at h
    cases h

variable {nonce : Octets} {timestamp : UInt64}

private theorem validate_ne_ok_of_remembers (hr : a.history.Remembers nonce timestamp)
    (hnonce : e.nonce? = some nonce) : (a.validate e).1 ≠ .ok () := by
  intro hok
  obtain ⟨other, hother, -, hnew, -⟩ := validate_eq_ok hok
  rw [hnonce] at hother
  cases hother
  rw [hr.contains] at hnew
  cases hnew

/-- While the entries that outlast a nonce and the envelopes that are accepted meanwhile are fewer than
eight, the nonce is remembered. -/
theorem validateAll_remembers (es : List Envelope) (hr : a.history.Remembers nonce timestamp)
    (hfew : (a.validateAll es).1.length +
      NonceHistory.outlasting nonce timestamp a.history.entries < 8) :
    (a.validateAll es).2.history.Remembers nonce timestamp := by
  induction es generalizing a with
  | nil => exact hr
  | cons e rest ih =>
    cases hverdict : (a.validate e).1 with
    | error rejection =>
      have hsame := validate_history_of_error hverdict
      simp only [validateAll, hverdict] at hfew ⊢
      exact ih (hsame ▸ hr) (by rw [hsame]; exact hfew)
    | ok =>
      obtain ⟨other, -, hother, hnew, hrecord⟩ := validate_eq_ok hverdict
      have hne : other ≠ nonce := by
        rintro rfl
        rw [hr.contains] at hnew
        cases hnew
      simp only [validateAll, hverdict, List.length_cons] at hfew ⊢
      obtain ⟨hkept, hgrowth⟩ := hr.record hother hne (by omega) e.timestamp
      rw [← hrecord] at hkept hgrowth
      exact ih hkept (by omega)

theorem utf8ByteSize_commandTag (payload : Document) (version : UInt32) (timestamp : UInt64) (nonce key : Octets) :
    (commandTag payload version timestamp nonce key).utf8ByteSize = macLength := by
  rw [commandTag, Hexadecimal.utf8ByteSize_encode, Hmac.length_sha256]
  rfl

theorem validate_of_signed (hkey : a.key = some key)
    (hsignature : e.signature = some ⟨Hexadecimal.encode nonce,
      commandTag e.payload e.version e.timestamp nonce key.octets, some algorithm⟩)
    (hfresh : isFresh a.latest e.timestamp) (hnonce : NonceHistory.isNonce nonce)
    (hnew : a.history.contains nonce = false) :
    a.validate e = (.ok (), { a with
      latest := max a.latest e.timestamp
      history := a.history.record nonce e.timestamp }) := by
  have hlength := utf8ByteSize_commandTag e.payload e.version e.timestamp nonce key.octets
  have hcheck : checkSignature key a.history e ⟨Hexadecimal.encode nonce,
      commandTag e.payload e.version e.timestamp nonce key.octets, some algorithm⟩ = .ok nonce := by
    simp [checkSignature, hlength, hnonce, hnew]
  simp [validate, hsignature, hkey, hfresh, hcheck]

def signedCommand (key : Key) (nonce : Octets) (timestamp : UInt64) : Envelope where
  version := 1
  kind := .command
  timestamp := timestamp
  sequence := 1
  payload := .object []
  crc := 0
  crcValid := true
  format := .json
  signature := some ⟨Hexadecimal.encode nonce,
    commandTag (.object []) 1 timestamp nonce key.octets, some algorithm⟩

@[simp] theorem nonce?_signedCommand (key : Key) (nonce : Octets) (timestamp : UInt64) :
    (signedCommand key nonce timestamp).nonce? = some nonce := by
  simp [signedCommand, Envelope.nonce?]

private theorem validate_signedCommand {latest : UInt64} (hfresh : isFresh latest timestamp = true)
    (hnonce : NonceHistory.isNonce nonce = true) (hnew : history.contains nonce = false) :
    (⟨some key, history, latest⟩ : Authenticator).validate (signedCommand key nonce timestamp) =
      (.ok (), ⟨some key, history.record nonce timestamp, max latest timestamp⟩) :=
  validate_of_signed rfl rfl hfresh hnonce hnew

private theorem length_validateAll_le (a : Authenticator) (es : List Envelope) :
    (a.validateAll es).1.length ≤ es.length := by
  induction es generalizing a with
  | nil => exact Nat.le_refl _
  | cons e rest ih =>
    have hrest := ih (a.validate e).2
    simp only [validateAll]
    split
    · exact Nat.succ_le_succ hrest
    · exact Nat.le_succ_of_le hrest

/-- Once an envelope was accepted, every later one with the same nonce is refused until so many further ones
were accepted that they make eight together with the remembered entries that outlast the nonce. If its time
stamp is newer than all others that are remembered, there are none of these. -/
theorem accepted_nonce_refused (a : Authenticator) (e : Envelope) (nonce : Octets)
    (haccepted : (a.validate e).1 = .ok ()) (hnonce : e.nonce? = some nonce) :
    let after := (a.validate e).2
    let outlasting := NonceHistory.outlasting nonce e.timestamp after.history.entries
    (∀ (es : List Envelope) (later : Envelope), later.nonce? = some nonce →
      (after.validateAll es).1.length + outlasting < 8 →
      ((after.validateAll es).2.validate later).1 ≠ .ok ()) ∧
    ((∀ entry ∈ after.history.entries, entry.nonce ≠ nonce → entry.timestamp < e.timestamp) →
      outlasting = 0) := by
  obtain ⟨recorded, hrecorded, hshape, hnew, hhistory⟩ := validate_eq_ok haccepted
  rw [hnonce] at hrecorded
  cases hrecorded
  have hr := NonceHistory.record_remembers hshape hnew e.timestamp
  rw [← hhistory] at hr
  constructor
  · intro es later hlater hfew
    exact validate_ne_ok_of_remembers (validateAll_remembers es hr hfew) hlater
  · exact hr.outlasting_eq_zero

/-- Seven newer commands leave the nonce of the first one where it is. -/
theorem accepted_nonce_refused_seven_later :
    let key : Key := ⟨List.replicate 32 0x5a, rfl⟩
    let a : Authenticator := ⟨some key, .empty, 0⟩
    let e := signedCommand key [0xee] 1000
    let es := ([1, 2, 3, 4, 5, 6, 7] : List UInt8).map fun n => signedCommand key [n] 2000
    (a.validate e).1 = .ok () ∧ e.nonce? = some [0xee] ∧
      (((a.validate e).2.validateAll es).2.validate e).1 ≠ .ok () := by
  intro key a e es
  have haccepted : a.validate e = (.ok (), ⟨some key, NonceHistory.empty.record [0xee] 1000, 1000⟩) := by
    simp only [a, e]
    rw [validate_signedCommand]
    · rfl
    all_goals decide
  have hok : (a.validate e).1 = .ok () := by rw [haccepted]
  have hnonce : e.nonce? = some [0xee] := by simp [e]
  have hfew := length_validateAll_le (a.validate e).2 es
  have hrefused := accepted_nonce_refused a e [0xee] hok hnonce
  have hnone : NonceHistory.outlasting [0xee] e.timestamp (a.validate e).2.history.entries = 0 := by
    rw [haccepted]
    rfl
  refine ⟨hok, hnonce, hrefused.1 es e hnonce ?_⟩
  rw [hnone]
  simp only [es, List.length_map, List.length_cons, List.length_nil] at hfew ⊢
  omega

theorem setKey_octets (a : Authenticator) (key : Key) :
    (a.setKey key.octets).2 = ⟨some key, .empty, 0⟩ := by
  have hkey : keyOf key.octets = .ok key := by
    simp [keyOf, Key.ofOctets?, key.length_eq]
  simp only [setKey, hkey]
  rfl

def newerCalls (key : Key) : List Call :=
  .setKey key.octets ::
    ([1, 2, 3, 4, 5, 6, 7] : List UInt8).map fun n => .validate (signedCommand key [n] 2000)

def newerHistory : NonceHistory :=
  ⟨([1, 2, 3, 4, 5, 6, 7] : List UInt8).map fun n => ⟨[n], 2000⟩, by decide⟩

private theorem reached_newerCalls (key : Key) :
    reached (newerCalls key) = ⟨some key, newerHistory, 2000⟩ := by
  simp only [reached, newerCalls, List.map, List.foldl, Call.apply, setKey_octets]
  rw [validate_signedCommand, validate_signedCommand, validate_signedCommand,
    validate_signedCommand, validate_signedCommand, validate_signedCommand, validate_signedCommand]
  · rfl
  all_goals decide

/-- Seven newer commands come first, and one old command takes the last place. The next command, the only one
in between, makes it forgotten, and the old command is accepted again. -/
theorem accepted_nonce_forgotten :
    ¬∀ (calls : List Call) (e : Envelope) (nonce : Octets),
      ((reached calls).validate e).1 = .ok () → e.nonce? = some nonce →
      ∀ (es : List Envelope) (later : Envelope), later.nonce? = some nonce →
        (((reached calls).validate e).2.validateAll es).1.length < 8 →
        ((((reached calls).validate e).2.validateAll es).2.validate later).1 ≠ .ok () := by
  intro hclaim
  obtain ⟨key⟩ : Nonempty Key := ⟨⟨List.replicate 32 0x5a, rfl⟩⟩
  have hfirst : (reached (newerCalls key)).validate (signedCommand key [8] 1000) =
      (.ok (), ⟨some key, newerHistory.record [8] 1000, 2000⟩) := by
    rw [reached_newerCalls, validate_signedCommand]
    · rfl
    all_goals decide
  have hnext : (⟨some key, newerHistory.record [8] 1000, 2000⟩ : Authenticator).validate
      (signedCommand key [9] 2000) =
      (.ok (), ⟨some key, (newerHistory.record [8] 1000).record [9] 2000, 2000⟩) := by
    rw [validate_signedCommand]
    · rfl
    all_goals decide
  have hagain : ((⟨some key, (newerHistory.record [8] 1000).record [9] 2000, 2000⟩ :
      Authenticator).validate (signedCommand key [8] 1000)).1 = .ok () := by
    rw [validate_signedCommand]
    all_goals decide
  have hrefused := hclaim (newerCalls key) (signedCommand key [8] 1000) [8] (by rw [hfirst])
    (nonce?_signedCommand ..) [signedCommand key [9] 2000] (signedCommand key [8] 1000)
    (nonce?_signedCommand ..)
  simp only [hfirst, validateAll, hnext] at hrefused
  exact hrefused (by simp) hagain

end Authenticator
end FieldLink
