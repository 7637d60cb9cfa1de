import FieldLink.Proofs.CommandReplay
import Mathlib.Data.List.Induction
import Mathlib.Data.List.Nodup

/-!
# What holds of an authenticator after any run of calls

Its history is well shaped and not newer than its watermark, and is empty while there is no key; the watermark
falls only with a reset or a change of key; and a command is accepted only under the key that was loaded last
and not taken away since.
-/

namespace FieldLink

namespace NonceHistory

variable {h : NonceHistory} {nonce : Octets} {timestamp : UInt64}

private theorem mem_record {entry : NonceEntry} (hentry : entry ∈ (h.record nonce timestamp).entries) :
    entry = ⟨nonce, timestamp⟩ ∨ entry ∈ h.entries := by
  by_cases hnonce : isNonce nonce
  · by_cases hfree : h.entries.length < depth
    · rw [record_of_free hnonce hfree] at hentry
      simpa [or_comm] using hentry
    · rw [record_of_full hnonce hfree] at hentry
      exact (List.mem_or_eq_of_mem_set hentry).symm
  · rw [record, if_neg hnonce] at hentry
    exact .inr hentry

private theorem nodup_record (hdistinct : (h.entries.map NonceEntry.nonce).Nodup)
    (hnew : h.contains nonce = false) (timestamp : UInt64) :
    ((h.record nonce timestamp).entries.map NonceEntry.nonce).Nodup := by
  have hother := contains_eq_false_iff.mp hnew
  by_cases hnonce : isNonce nonce
  · by_cases hfree : h.entries.length < depth
    · rw [record_of_free hnonce hfree, List.map_append, List.nodup_append]
      refine ⟨hdistinct, by simp, ?_⟩
      rintro used hused fresh hfresh rfl
      obtain ⟨entry, hentry, rfl⟩ := List.mem_map.1 hused
      exact hother entry hentry (by simpa using hfresh)
    · obtain ⟨before, victim, behind, hentries, hrecord, -, -⟩ :=
        record_full_split hnonce hfree timestamp
      -- The new nonce stands where the victim stood, and the victim was apart from all others.
      rw [hentries, List.map_append, List.map_cons, List.nodup_middle, List.nodup_cons] at hdistinct
      rw [hrecord, List.map_append, List.map_cons, List.nodup_middle, List.nodup_cons]
      refine ⟨?_, hdistinct.2⟩
      intro hmem
      rw [← List.map_append] at hmem
      obtain ⟨entry, hentry, heq⟩ := List.mem_map.1 hmem
      refine hother entry ?_ heq
      rw [hentries]
      rcases List.mem_append.1 hentry with hentry | hentry
      · exact List.mem_append_left _ hentry
      · exact List.mem_append_right _ (List.mem_cons_of_mem _ hentry)
  · rw [record, if_neg hnonce]
    exact hdistinct

end NonceHistory

namespace Authenticator

variable {a : Authenticator} {e : Envelope} {key : Key}

theorem isFresh_iff (latest timestamp : UInt64) :
    isFresh latest timestamp = true ↔ latest = 0 ∨ latest.toNat ≤ timestamp.toNat + replayWindow := by
  have hlatest : latest.toNat ≤ 2 ^ 64 - 1 := Nat.le_sub_one_of_lt latest.toNat_lt
  simp only [isFresh, decide_eq_true_eq, Nat.le_min, hlatest, and_true]

@[simp] theorem validate_key (a : Authenticator) (e : Envelope) : (a.validate e).2.key = a.key := by
  rcases validate_cases a e with ⟨rejection, latest, hstep⟩ | ⟨s, key, nonce, -, -, -, -, hstep⟩
  all_goals rw [hstep]

theorem validate_of_keyless (hkey : a.key = none) (e : Envelope) : (a.validate e).2 = a := by
  cases hsignature : e.signature with
  | none => simp [validate, hsignature]
  | some s => simp [validate, hsignature, hkey]

theorem latest_le_validate (a : Authenticator) (e : Envelope) :
    a.latest ≤ (a.validate e).2.latest := by
  have hmax : a.latest ≤ max a.latest e.timestamp := by
    rw [UInt64.le_iff_toNat_le, UInt64.toNat_max]
    exact Nat.le_max_left _ _
  simp only [validate]
  split
  · exact UInt64.le_refl _
  · exact UInt64.le_refl _
  · split
    · split
      all_goals exact hmax
    · exact UInt64.le_refl _

private theorem timestamp_of_accepted (haccepted : (a.validate e).1 = .ok ()) :
    a.latest.toNat ≤ e.timestamp.toNat + replayWindow ∧ e.timestamp ≤ (a.validate e).2.latest := by
  rcases validate_cases a e with ⟨rejection, latest, hstep⟩ | ⟨s, key, nonce, -, -, hfresh, -, hstep⟩
  · rw [hstep] at haccepted
    cases haccepted
  · rw [isFresh_iff] at hfresh
    rw [hstep, UInt64.le_iff_toNat_le, UInt64.toNat_max]
    refine ⟨?_, Nat.le_max_right _ _⟩
    rcases hfresh with hzero | hfresh
    · rw [hzero]
      exact Nat.zero_le _
    · exact hfresh

/-- An authenticator whose history fits its key and its watermark. -/
structure Consistent (a : Authenticator) : Prop where
  size : a.history.entries.length ≤ 8
  nonces : ∀ entry ∈ a.history.entries, 1 ≤ entry.nonce.length ∧ entry.nonce.length ≤ 16
  distinct : (a.history.entries.map NonceEntry.nonce).Nodup
  notLater : ∀ entry ∈ a.history.entries, entry.timestamp ≤ a.latest
  keyless : a.key = none → a.history.entries = [] ∧ a.latest = 0

private theorem consistent_forgotten (key : Option Key) : Consistent ⟨key, .empty, 0⟩ := by
  refine ⟨Nat.zero_le _, ?_, List.nodup_nil, ?_, fun _ => ⟨rfl, rfl⟩⟩
  all_goals
    intro entry hentry
    cases hentry

theorem Consistent.validate (h : a.Consistent) (e : Envelope) : (a.validate e).2.Consistent := by
  have hlatest := latest_le_validate a e
  have hkeyless : (a.validate e).2.key = none →
      (a.validate e).2.history.entries = [] ∧ (a.validate e).2.latest = 0 := by
    intro hkey
    rw [validate_key] at hkey
    rw [validate_of_keyless hkey]
    exact h.keyless hkey
  cases hverdict : (a.validate e).1 with
  | error rejection =>
    have hsame := validate_history_of_error hverdict
    refine ⟨hsame ▸ h.size, hsame ▸ h.nonces, hsame ▸ h.distinct, ?_, hkeyless⟩
    intro entry hentry
    rw [hsame] at hentry
    exact UInt64.le_trans (h.notLater entry hentry) hlatest
  | ok =>
    obtain ⟨nonce, -, hnonce, hnew, hrecord⟩ := validate_eq_ok hverdict
    have hshape := NonceHistory.isNonce_iff.mp hnonce
    refine ⟨(a.validate e).2.history.length_le, ?_, ?_, ?_, hkeyless⟩
    · intro entry hentry
      rw [hrecord] at hentry
      rcases NonceHistory.mem_record hentry with rfl | hentry
      · exact hshape
      · exact h.nonces entry hentry
    · rw [hrecord]
      exact NonceHistory.nodup_record h.distinct hnew e.timestamp
    · intro entry hentry
      rw [hrecord] at hentry
      rcases NonceHistory.mem_record hentry with rfl | hentry
      · exact (timestamp_of_accepted hverdict).2
      · exact UInt64.le_trans (h.notLater entry hentry) hlatest

/-- A call that loads a key: 32 octets from its caller, or those under a name of a store. -/
inductive Call.Loads (key : Key) : Call → Prop
  | given : Loads key (.setKey key.octets)
  | stored {store : SecretStore} {name : String} (h : store.get name = .ok key.octets) :
      Loads key (.load store name)

/-- A call that changes no key and resets nothing: a validation, or a key of a wrong length. -/
def Call.Continues : Call → Prop
  | .setKey octets => octets.length ≠ 32
  | .validate _ => True
  | _ => False

/-- A call that leaves a key where it is. To load from a store is none, even where it fails. -/
def Call.KeepsKey (call : Call) : Prop := call = .resetHistory ∨ call.Continues

theorem ofOctets?_octets (key : Key) : Key.ofOctets? key.octets = some key := by
  simp [Key.ofOctets?, key.length_eq]

theorem octets_ne_nil (key : Key) : key.octets ≠ [] := by
  intro hnil
  have hlength := key.length_eq
  rw [hnil] at hlength
  cases hlength

theorem commandMac_eq_ok_iff {payload : Document} {version : UInt32} {timestamp : UInt64} {nonce : Octets}
    {mac : String} :
    commandMac payload version timestamp nonce key.octets = .ok mac ↔
      NonceHistory.isNonce nonce = true ∧ commandTag payload version timestamp nonce key.octets = mac := by
  rw [commandMac, if_neg (octets_ne_nil key)]
  split
  · next hnonce => simp [hnonce]
  · next hnonce => simp [hnonce]

theorem octets_of_ofOctets? {octets : Octets} (h : Key.ofOctets? octets = some key) :
    octets = key.octets := by
  unfold Key.ofOctets? at h
  split at h
  · cases h
    rfl
  · cases h

theorem setKey_of_error {octets : Octets} {refusal : SecurityError}
    (h : (a.setKey octets).1 = .error refusal) : (a.setKey octets).2 = a := by
  unfold setKey at h ⊢
  split at h
  · cases h
  · rfl

private theorem setKey_of_length_ne {octets : Octets} (h : octets.length ≠ 32) : (a.setKey octets).2 = a := by
  simp [setKey, keyOf, Key.ofOctets?, h]

theorem Call.Loads.apply {call : Call} (h : call.Loads key) (a : Authenticator) :
    call.apply a = ⟨some key, .empty, 0⟩ := by
  cases h with
  | given => exact setKey_octets a key
  | stored hstored =>
    simp only [Call.apply, Authenticator.load, hstored, ofOctets?_octets]
    rfl

/-- A key is loaded, or it is missing from the store or has the wrong length. -/
theorem load_cases (a : Authenticator) (store : SecretStore) (name : String) :
    (∃ key, store.get name = .ok key.octets ∧ a.load store name = (.ok (), ⟨some key, .empty, 0⟩)) ∨
      ∃ e, a.load store name = (.error e, fresh) ∧
        ((∃ fault, e = .keyStore fault) ∨ ∃ fault, e = .configuration fault) := by
  rw [load]
  cases hget : store.get name with
  | error e => exact .inr ⟨_, rfl, .inl ⟨e, rfl⟩⟩
  | ok octets =>
    cases hkey : Key.ofOctets? octets with
    | none =>
      simp only [hkey]
      exact .inr ⟨_, rfl, .inr ⟨_, rfl⟩⟩
    | some key =>
      obtain rfl := octets_of_ofOctets? hkey
      simp only [hkey]
      exact .inl ⟨key, rfl, rfl⟩

/-- What a call does to an authenticator: it loads a key into an empty one, leaves an empty one without a key,
empties it under its key, or continues. -/
theorem Call.apply_cases (call : Call) (a : Authenticator) :
    (∃ key, call.Loads key ∧ call.apply a = ⟨some key, .empty, 0⟩) ∨
      (¬call.KeepsKey ∧ call.apply a = fresh) ∨
      (call = .resetHistory ∧ call.apply a = ⟨a.key, .empty, 0⟩) ∨
      (call.Continues ∧ (call.apply a = a ∨ ∃ e, call = .validate e)) := by
  cases call with
  | setKey octets =>
    cases hkey : Key.ofOctets? octets with
    | some key =>
      have hoctets := octets_of_ofOctets? hkey
      subst hoctets
      exact .inl ⟨key, .given, Call.Loads.given.apply a⟩
    | none =>
      have hlength : octets.length ≠ 32 := by
        intro hlength
        simp [Key.ofOctets?, hlength] at hkey
      exact .inr (.inr (.inr ⟨hlength, .inl (setKey_of_length_ne hlength)⟩))
  | forgetKey => exact .inr (.inl ⟨by simp [KeepsKey, Continues], rfl⟩)
  | resetHistory => exact .inr (.inr (.inl ⟨rfl, rfl⟩))
  | load store name =>
    rcases a.load_cases store name with ⟨key, hget, -⟩ | ⟨e, hload, -⟩
    · have hloads : (Call.load store name).Loads key := .stored hget
      exact .inl ⟨key, hloads, hloads.apply a⟩
    · exact .inr (.inl ⟨by simp [KeepsKey, Continues], congrArg Prod.snd hload⟩)
  | validate e => exact .inr (.inr (.inr ⟨trivial, .inr ⟨e, rfl⟩⟩))

theorem Consistent.apply (h : a.Consistent) (call : Call) : (call.apply a).Consistent := by
  rcases call.apply_cases a with ⟨key, -, hcall⟩ | ⟨-, hcall⟩ | ⟨-, hcall⟩ | ⟨-, hcall | ⟨e, rfl⟩⟩
  · rw [hcall]
    exact consistent_forgotten _
  · rw [hcall]
    exact consistent_forgotten none
  · rw [hcall]
    exact consistent_forgotten _
  · rw [hcall]
    exact h
  · exact h.validate e

private theorem reached_append (before after : List Call) :
    reached (before ++ after) = after.foldl (fun a call => call.apply a) (reached before) :=
  List.foldl_append

private theorem reached_concat (before : List Call) (call : Call) :
    reached (before ++ [call]) = call.apply (reached before) := by
  rw [reached_append]
  rfl

theorem reached_consistent (calls : List Call) : (reached calls).Consistent := by
  induction calls using List.reverseRecOn with
  | nil => exact consistent_forgotten none
  | append_singleton calls call ih =>
    rw [reached_concat]
    exact ih.apply call

private theorem latest_le_foldl {calls : List Call} (hcalls : ∀ call ∈ calls, call.Continues)
    (a : Authenticator) : a.latest ≤ (calls.foldl (fun a call => call.apply a) a).latest := by
  induction calls generalizing a with
  | nil => exact UInt64.le_refl _
  | cons call calls ih =>
    have hrest := ih (fun call h => hcalls call (List.mem_cons_of_mem _ h)) (call.apply a)
    refine UInt64.le_trans ?_ hrest
    have hcall := hcalls call List.mem_cons_self
    cases call with
    | setKey octets =>
      rw [Call.apply, setKey_of_length_ne hcall]
      exact UInt64.le_refl _
    | validate e => exact latest_le_validate a e
    | forgetKey => cases hcall
    | resetHistory => cases hcall
    | load store name => cases hcall

theorem exists_loads_of_key {calls : List Call} (hkey : (reached calls).key = some key) :
    ∃ before load after, calls = before ++ load :: after ∧ load.Loads key ∧
      ∀ call ∈ after, call.KeepsKey := by
  induction calls using List.reverseRecOn with
  | nil => cases hkey
  | append_singleton calls call ih =>
    have hearlier (hkeeps : call.KeepsKey) (hsame : (reached calls).key = some key) :
        ∃ before load after, calls ++ [call] = before ++ load :: after ∧ load.Loads key ∧
          ∀ call ∈ after, call.KeepsKey := by
      obtain ⟨before, load, after, hsplit, hloads, hafter⟩ := ih hsame
      refine ⟨before, load, after ++ [call], by simp [hsplit], hloads, ?_⟩
      intro other hother
      rcases List.mem_append.1 hother with hother | hother
      · exact hafter other hother
      · rw [List.mem_singleton.1 hother]
        exact hkeeps
    rw [reached_concat] at hkey
    rcases call.apply_cases (reached calls) with
      ⟨loaded, hloads, hcall⟩ | ⟨-, hcall⟩ | ⟨hreset, hcall⟩ | ⟨hcontinues, hcall | ⟨e, rfl⟩⟩
    · rw [hcall] at hkey
      cases hkey
      exact ⟨calls, call, [], rfl, hloads, by simp⟩
    · rw [hcall] at hkey
      cases hkey
    · rw [hcall] at hkey
      exact hearlier (.inl hreset) hkey
    · rw [hcall] at hkey
      exact hearlier (.inr hcontinues) hkey
    · rw [Call.apply, validate_key] at hkey
      exact hearlier (.inr hcontinues) hkey

def SignedUnder (key : Key) (e : Envelope) : Prop :=
  ∃ s nonce, e.signature = some s ∧ Hexadecimal.decode? s.nonce = some nonce ∧
    s.mac = commandTag e.payload e.version e.timestamp nonce key.octets

private theorem signedUnder_of_accepted (haccepted : (a.validate e).1 = .ok ()) :
    ∃ key, a.key = some key ∧ SignedUnder key e := by
  rcases validate_cases a e with ⟨rejection, latest, hstep⟩ | ⟨s, key, nonce, hsignature, hkey, -, hcheck, -⟩
  · rw [hstep] at haccepted
    cases haccepted
  · obtain ⟨hdecode, -, -, htag⟩ := checkSignature_eq_ok hcheck
    exact ⟨key, hkey, s, nonce, hsignature, hdecode, htag.symm⟩

/-- After any calls on a fresh authenticator its state is consistent. While calls continue, the watermark does
not fall and no time stamp is accepted that lies more than the window behind one accepted before. A command is
accepted only under the key that was loaded last, with nothing since then that could take it away; and a key
that is refused leaves everything as it was. -/
theorem reached_failsClosed (calls : List Call) :
    (reached calls).Consistent ∧
    (∀ between, (∀ call ∈ between, call.Continues) →
      (reached calls).latest ≤ (reached (calls ++ between)).latest) ∧
    (∀ earlier between later, (∀ call ∈ between, call.Continues) →
      ((reached calls).validate earlier).1 = .ok () →
      ((reached (calls ++ .validate earlier :: between)).validate later).1 = .ok () →
      earlier.timestamp.toNat ≤ later.timestamp.toNat + 60000) ∧
    (∀ e, ((reached calls).validate e).1 = .ok () →
      ∃ before load after key, calls = before ++ load :: after ∧ load.Loads key ∧
        load.apply (reached before) = ⟨some key, .empty, 0⟩ ∧
        (∀ call ∈ after, call.KeepsKey) ∧ SignedUnder key e) ∧
    (∀ octets refusal, ((reached calls).setKey octets).1 = .error refusal →
      ((reached calls).setKey octets).2 = reached calls) := by
  refine ⟨reached_consistent calls, ?_, ?_, ?_, ?_⟩
  · intro between hbetween
    rw [reached_append]
    exact latest_le_foldl hbetween _
  · intro earlier between later hbetween hearlier hlater
    have hmark := (timestamp_of_accepted hearlier).2
    have hkept := latest_le_foldl hbetween ((reached calls).validate earlier).2
    have hfresh := (timestamp_of_accepted hlater).1
    rw [reached_append, List.foldl_cons, Call.apply] at hfresh
    rw [UInt64.le_iff_toNat_le] at hmark hkept
    exact Nat.le_trans hmark (Nat.le_trans hkept hfresh)
  · intro e haccepted
    obtain ⟨key, hkey, hsigned⟩ := signedUnder_of_accepted haccepted
    obtain ⟨before, load, after, hsplit, hloads, hafter⟩ := exists_loads_of_key hkey
    exact ⟨before, load, after, key, hsplit, hloads, hloads.apply _, hafter, hsigned⟩
  · intro octets refusal hrefused
    exact setKey_of_error hrefused

/-- A key from a store outlives a reset and a key that is refused. -/
theorem reached_failsClosed_stored :
    let key : Key := ⟨List.replicate 32 0x5a, rfl⟩
    let calls : List Call :=
      [.forgetKey, .load (.memory [("cmd", key.octets)]) "cmd", .resetHistory, .setKey [1, 2]]
    let e := signedCommand key [7] 1000
    ((reached calls).validate e).1 = .ok () ∧
      ∃ before load after other, calls = before ++ load :: after ∧ load.Loads other ∧
        load.apply (reached before) = ⟨some other, .empty, 0⟩ ∧
        (∀ call ∈ after, call.KeepsKey) ∧ SignedUnder other e := by
  intro key calls e
  have hstored : (Call.load (.memory [("cmd", key.octets)]) "cmd").Loads key := by
    refine .stored ?_
    rw [SecretStore.get, if_pos (by decide)]
    rfl
  have hreached : reached calls = ⟨some key, .empty, 0⟩ := by
    simp only [calls, reached, List.foldl_cons, List.foldl_nil, hstored.apply]
    exact setKey_of_length_ne (by decide)
  have haccepted : ((reached calls).validate e).1 = .ok () := by
    rw [hreached, validate_of_signed rfl rfl (by decide) (by decide) (by decide)]
  exact ⟨haccepted, (reached_failsClosed calls).2.2.2.1 e haccepted⟩

end Authenticator
end FieldLink
