import FieldLink.Proofs.ContextUse
import FieldLink.Proofs.HandshakeReplay

/-!
# Requests that are refused

Whatever was wrong with one, the answer is the same, and nothing is left of it but that nonces whose time was
over are forgotten; so no later request is answered otherwise for it.
-/

namespace FieldLink

private theorem NonceCache.purge_purge (c : NonceCache) {now later : UInt64} (h : now ≤ later) :
    (c.purge now).purge later = c.purge later := by
  have hentries : (c.entries.filter (isLive c.window now)).filter (isLive c.window later) =
      c.entries.filter (isLive c.window later) := by
    rw [List.filter_filter]
    refine List.filter_congr fun entry _ => ?_
    rw [Bool.and_eq_left_iff_imp]
    exact isLive_of_le h (UInt64.le_refl _)
  simp only [purge, hentries]

namespace Admission

variable {a b : Admission} {c : SecurityContext} {h : Handshake.Headers} {r : Request} {time now : UInt64}

theorem checkCode_cases (hchecked : ∀ codes, c.codes = some codes → codes.check = .ok ()) (h : Handshake.Headers)
    (time : UInt64) : checkCode c h time = .ok () ∨ checkCode c h time = .error .invalidResponse := by
  cases hcodes : c.codes with
  | none => exact .inl (by rw [checkCode, hcodes]; rfl)
  | some codes =>
    rw [checkCode, hcodes]
    simp only [Option.isNone_some, Bool.false_eq_true, if_false]
    split
    · exact .inr rfl
    · next number _ =>
      obtain ⟨accepted, hverify⟩ : ∃ accepted, c.verifyCode time (.ofNat number) = .ok accepted := by
        rw [SecurityContext.verifyCode_of_codes hcodes, CodeSettings.verify, hchecked codes hcodes]
        exact ⟨_, rfl⟩
      rw [hverify]
      cases accepted
      · exact .inr rfl
      · exact .inl rfl

/-- A request is admitted, or refused in one way, and then at most the nonces are forgotten whose time is over. -/
theorem admitted_or_refused (hchecked : ∀ codes, c.codes = some codes → codes.check = .ok ()) (a : Admission)
    (h : Handshake.Headers) (time now : UInt64) :
    (a.judge c h time now).1 = .ok () ∨ a.judge c h time now = (.error .invalidResponse, a) ∨
      a.judge c h time now = (.error .invalidResponse, { a with cache := a.cache.purge now }) := by
  rcases judge_cases a c h time now with
    hwrong | ⟨-, hcode⟩ | ⟨nonce, -, ⟨-, hused⟩ | ⟨-, ⟨e, hcode, hrefused⟩ | ⟨-, hadmitted⟩⟩⟩
  · exact .inr (.inl hwrong)
  · rw [hcode]
    rcases checkCode_cases hchecked h time with hright | hfalse
    · exact .inl hright
    · exact .inr (.inl (by rw [hfalse]))
  · exact .inr (.inr hused)
  · rcases checkCode_cases hchecked h time with hright | hfalse
    · rw [hright] at hcode
      cases hcode
    · rw [hfalse] at hcode
      cases hcode
      exact .inr (.inr hrefused)
  · exact .inl (by rw [hadmitted])

/-- Two states that no request from a moment on can tell from each other. -/
structure AlikeFrom (now : UInt64) (a b : Admission) : Prop where
  token : a.token = b.token
  cache : ∀ later, now ≤ later → a.cache.purge later = b.cache.purge later

theorem AlikeFrom.refl (now : UInt64) (a : Admission) : AlikeFrom now a a := ⟨rfl, fun _ _ => rfl⟩

private theorem alikeFrom_purge (a : Admission) (now : UInt64) :
    AlikeFrom now { a with cache := a.cache.purge now } a := ⟨rfl, fun _ hlater => a.cache.purge_purge hlater⟩

theorem AlikeFrom.receive (halike : AlikeFrom now a b) (hr : now ≤ r.now) :
    (a.receive r).1 = (b.receive r).1 ∧ AlikeFrom now (a.receive r).2 (b.receive r).2 := by
  have hlook (nonce : Octets) : a.cache.lookUp nonce r.now = b.cache.lookUp nonce r.now := by
    rw [NonceCache.lookUp, NonceCache.lookUp, halike.cache r.now hr]
  simp only [Admission.receive, judge, halike.token, hlook]
  split
  · exact ⟨rfl, halike⟩
  · split
    · exact ⟨rfl, halike⟩
    · split
      · exact ⟨rfl, halike⟩
      · exact ⟨rfl, .refl now _⟩

theorem AlikeFrom.after (halike : AlikeFrom now a b) {requests : List Request} (hlater : ∀ r ∈ requests, now ≤ r.now) :
    AlikeFrom now (a.after requests) (b.after requests) := by
  induction requests generalizing a b with
  | nil => exact halike
  | cons r requests ih =>
    obtain ⟨hfirst, hrest⟩ := List.forall_mem_cons.mp hlater
    exact ih (halike.receive hfirst).2 hrest

/-- A request that is refused is answered in one way only, and leaves token, room, window and every nonce in its time as
they were, in their order and with no other among them. From then on every request is answered as if there had been none,
whatever came in between. -/
theorem refused_leaves_no_trace (hcontext : c.InUse) (a : Admission) (h : Handshake.Headers) (time now : UInt64)
    (hrefused : (a.judge c h time now).1 ≠ .ok ()) :
    let next := (a.judge c h time now).2
    (a.judge c h time now).1 = .error .invalidResponse ∧
    next.token = a.token ∧ next.cache.capacity = a.cache.capacity ∧ next.cache.window = a.cache.window ∧
    next.cache.entries.Sublist a.cache.entries ∧
    (a.cache.entries.filter fun entry => now.toNat - entry.2.toNat ≤ a.cache.window.toNat).Sublist next.cache.entries ∧
    ∀ (between : List Request) (r : Request), (∀ other ∈ r :: between, now ≤ other.now) →
      ((next.after between).receive r).1 = ((a.after between).receive r).1 := by
  intro next
  rcases admitted_or_refused (fun _ => hcontext.check_codes) a h time now with hadmitted | hsame | hpurged
  · exact absurd hadmitted hrefused
  · have hnext : next = a := congrArg Prod.snd hsame
    rw [hsame, hnext]
    exact ⟨rfl, rfl, rfl, rfl, .refl _, List.filter_sublist, fun _ _ _ => rfl⟩
  · have hnext : next = { a with cache := a.cache.purge now } := congrArg Prod.snd hpurged
    rw [hpurged, hnext]
    refine ⟨rfl, rfl, rfl, rfl, List.filter_sublist, .refl _, ?_⟩
    intro between r hlater
    obtain ⟨hlast, hbetween⟩ := List.forall_mem_cons.mp hlater
    exact (((alikeFrom_purge a now).after hbetween).receive hlast).1

/-- The signature is right and the code is missing. Of the two nonces that are remembered, one has been for a millisecond
too long. -/
theorem refused_leaves_no_trace_codeless :
    let settings : SecuritySettings := ⟨false, true, true, List.replicate 32 9, some ⟨List.replicate 20 0x31, 30, 6, 1⟩⟩
    let nonce : Octets := List.replicate 16 1
    let headers (key : Key) : Handshake.Headers := ⟨Handshake.bearer "tok", some (Hexadecimal.encode nonce),
      some (Hexadecimal.encode (Hmac.sha256 key.octets (nonce ++ Handshake.valueOctets (Handshake.bearer "tok")))), none⟩
    let a : Admission := ⟨"tok", ⟨16, 30000, [(List.replicate 16 2, 9999), (List.replicate 16 3, 10000)]⟩⟩
    ∃ c key, SecurityContext.ofSettings settings = .ok c ∧ c.handshakeKey = some key ∧
      let answer := a.judge c (headers key) 59 40000
      answer.1 = .error .invalidResponse ∧ answer.2.cache.entries = [(List.replicate 16 3, 10000)] ∧
      ∀ r : Request, 40000 ≤ r.now → (answer.2.receive r).1 = (a.receive r).1 := by
  intro settings nonce headers a
  obtain ⟨c, hc, hsigns, -, -⟩ : ∃ c, SecurityContext.ofSettings settings = .ok c ∧ c.handshakeKey.isSome = true ∧
      c.frameKey.isSome = false ∧ c.codes.isSome = true :=
    SecurityContext.exists_context (fun _ => by decide) fun _ => ⟨_, rfl, rfl⟩
  obtain ⟨key, hkey⟩ := Option.isSome_iff_exists.mp hsigns
  have hcodes : c.codes = some ⟨List.replicate 20 0x31, 30, 6, 1⟩ :=
    (Except.ok.inj (SecurityContext.ofSettings_eq_ok_iff.mp hc).2.2.1).symm
  have hsigned : signedNonce c (headers key) = .ok nonce :=
    signedNonce_of_signed hkey rfl (show "Bearer tok" ≠ "" by decide) rfl rfl
  have hcode : checkCode c (headers key) 59 = .error .invalidResponse := by
    rw [checkCode, hcodes]
    rfl
  have hjudge : a.judge c (headers key) 59 40000 =
      (.error .invalidResponse, ⟨"tok", ⟨16, 30000, [(List.replicate 16 3, 10000)]⟩⟩) := by
    have htoken : (headers key).token?.getD "" = "tok" := Handshake.Headers.token?_getD_eq_iff.mpr (.inl rfl)
    have hlooked : a.cache.lookUp nonce 40000 = (false, ⟨16, 30000, [(List.replicate 16 3, 10000)]⟩) := rfl
    have hknown : a.token = "tok" := rfl
    simp only [judge, htoken, hknown, hkey, hsigned, hlooked, hcode, Option.isNone_some, ne_eq, not_true_eq_false,
      if_false, Bool.false_eq_true]
  have hrefused : (a.judge c (headers key) 59 40000).1 ≠ .ok () := by
    rw [hjudge]
    rintro ⟨⟩
  have htrace := refused_leaves_no_trace (.ofSettings hc) a (headers key) 59 40000 hrefused
  refine ⟨c, key, hc, hkey, htrace.1, ?_, fun r hr => htrace.2.2.2.2.2.2 [] r (by simpa using hr)⟩
  rw [hjudge]

end Admission
end FieldLink
