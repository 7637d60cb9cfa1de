import FieldLink.Proofs.ConnectionKeys
import FieldLink.Proofs.HandshakeAdmission
import FieldLink.Proofs.LetterCase
import Mathlib.Data.List.Forall2

/-!
# Headers from a client to a node

However they are ordered on the way, in whichever case their names are written and whatever else is put between
them, they are read back as they were built; and a node of the same settings admits them while the nonce is new
and the clocks are near.
-/

namespace FieldLink.Handshake

private theorem bearer_ne_empty (token : String) : bearer token ≠ "" := by
  simp [bearer, bearerFront]

namespace Headers

/-- The same name, some of its letters in the other case; letters that are not ASCII have no other. -/
def Recased (name other : String) : Prop :=
  List.Forall₂ (fun c d => d = c ∨ d = c.toLower ∨ d = c.toUpper) name.toList other.toList

theorem recased_iff {name other : String} :
    Recased name other ↔ name.toList.map Char.toLower = other.toList.map Char.toLower := by
  rw [← List.forall₂_eq_eq_eq, List.forall₂_map_left_iff, List.forall₂_map_right_iff, Recased]
  simp only [toLower_eq_toLower_iff]

theorem sameName_eq_true_iff {other name : String} : sameName other name = true ↔ Recased name other := by
  rw [recased_iff, sameName, beq_iff_eq, eq_comm]

def names : List String := [authorizationName, nonceName, signatureName, codeName]

private theorem eq_of_recased {name other : String} (hname : name ∈ names) (hother : other ∈ names)
    (h : Recased name other) : name = other := by
  have hdistinct : ∀ a ∈ names, ∀ b ∈ names, a.toList.map Char.toLower = b.toList.map Char.toLower → a = b := by
    decide +kernel
  exact hdistinct name hname other hother (recased_iff.mp h)

private theorem mem_names_of_mem_toPairs {h : Headers} {pair : String × String} (hpair : pair ∈ h.toPairs) :
    pair.1 ∈ names := by
  simp only [toPairs, List.mem_append, List.mem_singleton, Option.mem_toList, Option.map_eq_some_iff] at hpair
  rcases hpair with ((rfl | ⟨_, -, rfl⟩) | ⟨_, -, rfl⟩) | ⟨_, -, rfl⟩
  all_goals simp [names]

/-- Pairs in which the headers are: their names recased, others of other names put between, all in any order. -/
def CarriedBy (h : Headers) (pairs : List (String × String)) : Prop :=
  ∃ (recase : String → String) (others : List (String × String)), (∀ name, Recased name (recase name)) ∧
    (∀ other ∈ others, ∀ name ∈ names, ¬Recased name other.1) ∧
    pairs.Perm (h.toPairs.map (fun pair => (recase pair.1, pair.2)) ++ others)

variable {h : Headers} {pairs : List (String × String)} {name : String}

theorem mem_toPairs_iff (h : Headers) (value : String) :
    ((authorizationName, value) ∈ h.toPairs ↔ some h.authorization = some value) ∧
      ((nonceName, value) ∈ h.toPairs ↔ h.nonce = some value) ∧
      ((signatureName, value) ∈ h.toPairs ↔ h.signature = some value) ∧
      ((codeName, value) ∈ h.toPairs ↔ h.code = some value) := by
  simp [toPairs, authorizationName, nonceName, signatureName, codeName, eq_comm (a := value)]

private theorem CarriedBy.exists_iff (hcarried : h.CarriedBy pairs) (hname : name ∈ names) (value : String) :
    (∃ pair ∈ pairs, sameName pair.1 name = true ∧ pair.2 = value) ↔ (name, value) ∈ h.toPairs := by
  obtain ⟨recase, others, hrecase, hothers, hperm⟩ := hcarried
  simp only [sameName_eq_true_iff, hperm.mem_iff, List.mem_append, List.mem_map]
  constructor
  · rintro ⟨pair, ⟨own, hown, rfl⟩ | hother, hsame, rfl⟩
    · have hnames : own.1 = name := by
        refine eq_of_recased (mem_names_of_mem_toPairs hown) hname ?_
        exact recased_iff.mpr ((recased_iff.mp (hrecase own.1)).trans (recased_iff.mp hsame).symm)
      rw [← hnames]
      exact hown
    · exact absurd hsame (hothers pair hother name hname)
  · intro hown
    exact ⟨(recase name, value), .inl ⟨_, hown, rfl⟩, hrecase name, rfl⟩

private theorem find?_eq_of_forall {value : Option String}
    (hvalue : ∀ v, (∃ pair ∈ pairs, sameName pair.1 name = true ∧ pair.2 = v) ↔ value = some v) :
    find? name pairs = value := by
  cases hfound : pairs.find? fun pair => sameName pair.1 name with
  | none =>
    rw [find?, hfound, Option.map_none, eq_comm, Option.eq_none_iff_forall_ne_some]
    intro v hv
    obtain ⟨pair, hpair, hsame, -⟩ := (hvalue v).mpr hv
    exact List.find?_eq_none.mp hfound pair hpair hsame
  | some pair =>
    rw [find?, hfound, Option.map_some]
    exact ((hvalue pair.2).mp ⟨pair, List.mem_of_find?_eq_some hfound, by simpa using List.find?_some hfound, rfl⟩).symm

/-- Headers are read back from whatever carries them. -/
theorem ofPairs_of_carriedBy (hcarried : h.CarriedBy pairs) : ofPairs pairs = .ok h := by
  have hfind {name : String} {value : Option String} (hname : name ∈ names)
      (hvalue : ∀ v, (name, v) ∈ h.toPairs ↔ value = some v) : find? name pairs = value :=
    find?_eq_of_forall fun v => (hcarried.exists_iff hname v).trans (hvalue v)
  have hown (v : String) := mem_toPairs_iff h v
  rw [ofPairs, hfind (by simp [names]) fun v => (hown v).1, hfind (by simp [names]) fun v => (hown v).2.1,
    hfind (by simp [names]) fun v => (hown v).2.2.1, hfind (by simp [names]) fun v => (hown v).2.2.2]

private theorem build_of_check {c : SecurityContext} (hcodes : ∀ codes, c.codes = some codes → codes.check = .ok ())
    (token : String) (source : RandomSource) (time : UInt64) :
    build c token source time = .ok {
      authorization := bearer token
      nonce := c.handshakeKey.map fun _ => Hexadecimal.encode (source.draw nonceLength).1
      signature := c.handshakeKey.map fun key => Hexadecimal.encode
        (Hmac.sha256 key.octets ((source.draw nonceLength).1 ++ valueOctets (bearer token)))
      code := c.codes.map fun codes => CodeSettings.format (codes.codeAt time.toNat) codes.digits } := by
  have hsigned : signFresh c (bearer token) source = .ok (c.handshakeKey.map fun key =>
      ((source.draw nonceLength).1,
        Hmac.sha256 key.octets ((source.draw nonceLength).1 ++ valueOctets (bearer token)))) := by
    cases hkey : c.handshakeKey with
    | none => simp [signFresh, hkey]
    | some key =>
      have hnonce : (source.draw nonceLength).1 ≠ [] := List.ne_nil_of_length_pos (by simp [nonceLength])
      have hvalue : valueOctets (bearer token) ≠ [] := mt valueOctets_eq_nil_iff.mp (bearer_ne_empty token)
      simp [signFresh, sign, hkey, hnonce, hvalue, bind, Except.bind, pure, Except.pure]
  have hcode : codeHeader c time =
      .ok (c.codes.map fun codes => CodeSettings.format (codes.codeAt time.toNat) codes.digits) := by
    cases hon : c.codes with
    | none => simp [codeHeader, hon]
    | some codes =>
      have hanswer := SecurityContext.code_of_check hon (hcodes codes hon) time
      simp only [codeHeader, hon, hanswer, bind, Except.bind, pure, Except.pure, Option.map_some]
  simp only [build, hsigned, hcode, bind, Except.bind, pure, Except.pure, Option.map_map, Function.comp_def]

end Headers

/-- What a client has built is admitted by a node of the same settings, however it was carried there: unless the node
has the nonce in its cache, and, where there are codes, while both times are in periods no further apart than the
window. -/
theorem built_admitted {settings : SecuritySettings} {c : SecurityContext}
    (hc : SecurityContext.ofSettings settings = .ok c) (token : String) (source : RandomSource) (sent : UInt64) :
    ∃ h, Headers.build c token source sent = .ok h ∧ (∀ pairs, h.CarriedBy pairs → Headers.ofPairs pairs = .ok h) ∧
      ∀ (cache : NonceCache) (seen now : UInt64),
        (∀ entry ∈ cache.entries, h.nonce ≠ some (Hexadecimal.encode entry.1)) →
        (∀ codes, c.codes = some codes →
          ((sent.toNat / codes.period.toNat : Nat) - (seen.toNat / codes.period.toNat : Nat) : Int).natAbs ≤
              codes.window.toNat ∧
            seen.toNat + codes.window.toNat * codes.period.toNat < 2 ^ 64) →
        (Admission.judge ⟨token, cache⟩ c h seen now).1 = .ok () := by
  have hcheck (codes : CodeSettings) (hcodes : c.codes = some codes) : codes.check = .ok () :=
    SecurityContext.check_of_ofSettings hc hcodes
  refine ⟨_, Headers.build_of_check hcheck token source sent, fun pairs => Headers.ofPairs_of_carriedBy, ?_⟩
  intro cache seen now hnew hnear
  refine Admission.judge_eq_ok_iff.mpr ⟨Headers.token?_getD_eq_iff.mpr (.inl rfl), ?_, ?_⟩
  · intro hsome
    obtain ⟨key, hkey⟩ := Option.isSome_iff_exists.mp hsome
    refine ⟨(source.draw nonceLength).1, ?_, ?_⟩
    · refine Admission.signedNonce_of_signed hkey (RandomSource.length_draw _ _) (bearer_ne_empty token) ?_ ?_
      · simp only [hkey, Option.map_some]
      · simp only [hkey, Option.map_some]
    · refine NonceCache.lookUp_eq_false_iff.mpr ?_
      intro entry hentry _ hsame
      exact hnew entry hentry (by simp only [hkey, Option.map_some, hsame])
  · refine Admission.checkCode_eq_ok_iff.mpr ?_
    intro codes hcodes
    obtain ⟨hperiods, hend⟩ := hnear codes hcodes
    have hwindow := CodeSettings.inWindow_codeAt (CodeSettings.period_pos_of_check (hcheck codes hcodes)) hperiods hend
    refine ⟨CodeSettings.format (codes.codeAt sent.toNat) codes.digits, (codes.codeAt sent.toNat).toNat, ?_,
      NumberText.read?_format _ _, hcheck codes hcodes, ?_⟩
    · simp only [hcodes, Option.map_some]
    · rw [UInt32.ofNat_toNat]
      exact hwindow

/-- A client whose clock is a period behind and whose names come in small letters and in the opposite order, where all
is asked for and the node has another nonce. -/
theorem built_admitted_behind :
    let codes := CodeSettings.ofSeed [1, 2, 3]
    let settings : SecuritySettings := ⟨true, true, true, List.replicate 32 9, some codes⟩
    let cache : NonceCache := ⟨2, 30000, [(List.replicate 16 2, 1000)]⟩
    let small (name : String) : String := String.ofList (name.toList.map Char.toLower)
    ∃ c h, SecurityContext.ofSettings settings = .ok c ∧ Headers.build c "tok" (RandomSource.cycle [1]) 59 = .ok h ∧
      Headers.ofPairs (("accept", "*/*") :: h.toPairs.reverse.map fun pair => (small pair.1, pair.2)) = .ok h ∧
      (Admission.judge ⟨"tok", cache⟩ c h 89 1000).1 = .ok () := by
  intro codes settings cache small
  obtain ⟨c, hc⟩ : ∃ c, SecurityContext.ofSettings settings = .ok c :=
    ⟨⟨_, _, 0, some codes⟩, SecurityContext.ofSettings_eq_ok_iff.mpr
      ⟨SecurityContext.keyFor_of_ne (by decide) (by decide +kernel),
        SecurityContext.keyFor_of_ne (by decide) (by decide +kernel), by decide, rfl⟩⟩
  have hcodes : c.codes = some codes := by
    have hchecked := (SecurityContext.ofSettings_eq_ok_iff.mp hc).2.2.1
    exact (Except.ok.inj hchecked).symm
  obtain ⟨h, hbuild, hread, hjudge⟩ := built_admitted hc "tok" (RandomSource.cycle [1]) 59
  refine ⟨c, h, hc, hbuild, hread _ ⟨small, [("accept", "*/*")], ?_, ?_, ?_⟩, hjudge cache 89 1000 ?_ ?_⟩
  · intro name
    rw [Headers.Recased, String.toList_ofList]
    exact List.forall₂_map_right_iff.mpr (List.forall₂_same.mpr fun _ _ => .inr (.inl rfl))
  · simp only [Headers.recased_iff]
    decide +kernel
  · exact (((List.reverse_perm h.toPairs).map _).cons _).trans (List.perm_append_singleton _ _).symm
  · rw [Headers.build_of_check fun _ hcodes => SecurityContext.check_of_ofSettings hc hcodes] at hbuild
    rw [← Except.ok.inj hbuild]
    cases c.handshakeKey with
    | none => simp
    | some key =>
      have hdrawn : ((RandomSource.cycle [1]).draw nonceLength).1 = List.replicate 16 1 := by decide +kernel
      have hother : Hexadecimal.encode (List.replicate 16 1) ≠ Hexadecimal.encode (List.replicate 16 2) := by
        decide +kernel
      simp only [Option.map_some, hdrawn, cache, List.forall_mem_singleton, ne_eq, Option.some.injEq]
      exact hother
  · rw [hcodes]
    rintro _ ⟨rfl⟩
    decide

end FieldLink.Handshake
