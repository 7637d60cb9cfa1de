import FieldLink.Proofs.HandshakeAdmission

/-!
# Nonces over any run of signed requests, while the clock does not go back

What the cache holds are the last nonces that were admitted, in their order; a nonce leaves it when its time is
over or when as many others were admitted as there is room for, and until then no request with it is admitted.
-/

namespace FieldLink

namespace NonceCache

variable {c : NonceCache} {nonce : Octets} {now : UInt64} {entry : Octets × UInt64} {n : Nat}

theorem isLive_of_le {window later : UInt64} {older newer : Octets × UInt64} (hnow : now ≤ later)
    (hage : older.2 ≤ newer.2) (h : isLive window later older = true) : isLive window now newer = true := by
  rw [UInt64.le_iff_toNat_le] at hnow hage
  simp only [isLive, decide_eq_true_eq] at h ⊢
  omega

private theorem purge_suffix (hsorted : c.entries.Pairwise fun x y => x.2 ≤ y.2) (now : UInt64) :
    (c.purge now).entries <:+ c.entries := by
  obtain ⟨capacity, window, entries⟩ := c
  simp only [purge] at hsorted ⊢
  induction entries with
  | nil => exact List.suffix_refl _
  | cons first rest ih =>
    obtain ⟨hfirst, hrest⟩ := List.pairwise_cons.mp hsorted
    by_cases hlive : isLive window now first = true
    · have hall : ∀ entry ∈ first :: rest, isLive window now entry = true := by
        intro entry hentry
        rcases List.mem_cons.mp hentry with rfl | hentry
        · exact hlive
        · exact isLive_of_le (UInt64.le_refl _) (hfirst entry hentry) hlive
      exact ⟨[], List.filter_eq_self.mpr hall⟩
    · rw [List.filter_cons_of_neg hlive]
      exact (ih hrest).trans (List.suffix_cons _ _)

private theorem exists_kept (hroom : 0 < c.capacity) (hbounded : c.entries.length ≤ c.capacity) (nonce : Octets)
    (now : UInt64) : ∃ kept, c.record nonce now = { c with entries := kept ++ [(nonce, now)] } ∧
      kept <:+ (c.purge now).entries ∧ kept.length < c.capacity := by
  have hpurged : (c.purge now).entries.length ≤ c.capacity := Nat.le_trans (List.length_filter_le _ _) hbounded
  by_cases hfull : c.capacity ≤ (c.purge now).entries.length
  · refine ⟨(c.purge now).entries.drop 1, ?_, List.drop_suffix _ _, ?_⟩
    · rw [record]
      exact congrArg (fun kept => { c with entries := kept ++ [(nonce, now)] }) (if_pos hfull)
    · rw [List.length_drop]
      omega
  · refine ⟨(c.purge now).entries, ?_, List.suffix_refl _, by omega⟩
    rw [record]
    exact congrArg (fun kept => { c with entries := kept ++ [(nonce, now)] }) (if_neg hfull)

/-- An entry that has no more than `n` behind it. -/
def Remembers (c : NonceCache) (entry : Octets × UInt64) (n : Nat) : Prop :=
  ∃ front back, c.entries = front ++ entry :: back ∧ back.length ≤ n

private theorem remembers_record (c : NonceCache) (nonce : Octets) (now : UInt64) :
    (c.record nonce now).Remembers (nonce, now) 0 := ⟨_, [], rfl, Nat.le_refl 0⟩

theorem Remembers.purge (h : c.Remembers entry n) (hlive : isLive c.window now entry = true) :
    (c.purge now).Remembers entry n := by
  obtain ⟨front, back, hentries, hback⟩ := h
  refine ⟨front.filter (isLive c.window now), back.filter (isLive c.window now), ?_,
    Nat.le_trans (List.length_filter_le _ _) hback⟩
  simp only [NonceCache.purge, hentries, List.filter_append, List.filter_cons_of_pos hlive]

theorem Remembers.record (h : c.Remembers entry n) (hlive : isLive c.window now entry = true)
    (hroom : n + 1 < c.capacity) (nonce : Octets) : (c.record nonce now).Remembers entry (n + 1) := by
  obtain ⟨front, back, hentries, hback⟩ := h.purge hlive
  simp only [Remembers, NonceCache.record, hentries]
  have hlength (last : List (Octets × UInt64)) (hlast : last.length = 1) : (back ++ last).length ≤ n + 1 := by
    rw [List.length_append, hlast]
    omega
  split
  · next hfull =>
    -- A full cache has more entries than those behind this one, so the first is another.
    cases front with
    | nil =>
      have hcapacity : (c.purge now).capacity = c.capacity := rfl
      rw [hcapacity, List.nil_append, List.length_cons] at hfull
      omega
    | cons first front => exact ⟨front, back ++ [(nonce, now)], by simp, hlength _ rfl⟩
  · exact ⟨front, back ++ [(nonce, now)], by simp, hlength _ rfl⟩

theorem Remembers.lookUp (h : c.Remembers entry n) (hlive : isLive c.window now entry = true) :
    (c.lookUp entry.1 now).1 = true := by
  obtain ⟨front, back, hentries, -⟩ := h.purge hlive
  simp [NonceCache.lookUp, hentries]

end NonceCache

namespace Admission

structure Request where
  context : SecurityContext
  headers : Handshake.Headers
  time : UInt64
  now : UInt64

namespace Request

/-- The nonce that a request carries, empty where it carries none. -/
def nonce (r : Request) : Octets := (r.headers.nonce.bind Hexadecimal.decode?).getD []

def entry (r : Request) : Octets × UInt64 := (r.nonce, r.now)

end Request

def receive (a : Admission) (r : Request) : Except SecurityError Unit × Admission :=
  a.judge r.context r.headers r.time r.now

def after (a : Admission) (requests : List Request) : Admission :=
  requests.foldl (fun a r => (a.receive r).2) a

def admitted (a : Admission) : List Request → List Request
  | [] => []
  | r :: rest =>
    match a.receive r with
    | (.ok (), next) => r :: next.admitted rest
    | (.error _, next) => next.admitted rest

private theorem after_append (a : Admission) (earlier later : List Request) :
    a.after (earlier ++ later) = (a.after earlier).after later := List.foldl_append

private theorem admitted_append (a : Admission) (earlier later : List Request) :
    a.admitted (earlier ++ later) = a.admitted earlier ++ (a.after earlier).admitted later := by
  induction earlier generalizing a with
  | nil => rfl
  | cons r earlier ih =>
    have hafter : a.after (r :: earlier) = (a.receive r).2.after earlier := rfl
    rw [hafter, List.cons_append, admitted, admitted]
    obtain ⟨verdict, next⟩ := a.receive r
    cases verdict with
    | ok => exact congrArg (r :: ·) (ih next)
    | error e => exact ih next

private theorem admitted_sublist (a : Admission) (requests : List Request) :
    (a.admitted requests).Sublist requests := by
  induction requests generalizing a with
  | nil => exact .slnil
  | cons r requests ih =>
    rw [admitted]
    split
    · exact (ih _).cons_cons r
    · exact (ih _).cons r

variable {a : Admission} {r : Request}

private theorem signedNonce_cases (c : SecurityContext) (h : Handshake.Headers) :
    signedNonce c h = .error .invalidResponse ∨
      ∃ nonce, signedNonce c h = .ok nonce ∧ h.nonce.bind Hexadecimal.decode? = some nonce := by
  cases hnonce : h.nonce.bind Hexadecimal.decode? with
  | none => exact .inl (by simp [signedNonce, headerOctets, hnonce, bind, Except.bind])
  | some nonce =>
    cases hsignature : h.signature.bind Hexadecimal.decode? with
    | none => exact .inl (by simp [signedNonce, headerOctets, hnonce, hsignature, bind, Except.bind])
    | some signature =>
      simp only [signedNonce, headerOctets, hnonce, hsignature, bind, Except.bind]
      split
      · exact .inl rfl
      · split
        · exact .inr ⟨nonce, rfl, rfl⟩
        · exact .inl rfl

/-- All that may become of a request: something is wrong before any nonce is looked up; only the code decides, as nothing
is to be signed; or a nonce was signed with it, and is in the window, or is not and the code decides. -/
theorem judge_cases (a : Admission) (c : SecurityContext) (h : Handshake.Headers) (time now : UInt64) :
    a.judge c h time now = (.error .invalidResponse, a) ∨
    (c.handshakeKey = none ∧ a.judge c h time now = (checkCode c h time, a)) ∨
    ∃ nonce, h.nonce.bind Hexadecimal.decode? = some nonce ∧
      (((a.cache.lookUp nonce now).1 = true ∧
          a.judge c h time now = (.error .invalidResponse, { a with cache := a.cache.purge now })) ∨
        ((a.cache.lookUp nonce now).1 = false ∧
          ((∃ e, checkCode c h time = .error e ∧
              a.judge c h time now = (.error e, { a with cache := a.cache.purge now })) ∨
            (checkCode c h time = .ok () ∧
              a.judge c h time now = (.ok (), { a with cache := (a.cache.purge now).record nonce now }))))) := by
  rw [judge]
  split
  · exact .inl rfl
  · cases hkey : c.handshakeKey with
    | none => exact .inr (.inl ⟨rfl, rfl⟩)
    | some key =>
      rw [Option.isNone_some, if_neg Bool.false_ne_true]
      rcases signedNonce_cases c h with hwrong | ⟨nonce, hnonce, hcarried⟩
      · rw [hwrong]
        exact .inl rfl
      · refine .inr (.inr ⟨nonce, hcarried, ?_⟩)
        have hlooked : a.cache.lookUp nonce now = ((a.cache.lookUp nonce now).1, a.cache.purge now) := rfl
        rw [hnonce]
        dsimp only
        rw [hlooked]
        cases (a.cache.lookUp nonce now).1 with
        | true => exact .inl ⟨rfl, rfl⟩
        | false =>
          cases checkCode c h time with
          | error e => exact .inr ⟨rfl, .inl ⟨e, rfl, rfl⟩⟩
          | ok => exact .inr ⟨rfl, .inr ⟨rfl, rfl⟩⟩

/-- What a signed request may do: it is refused and changes nothing; or it is refused, for its nonce or its code, and
old nonces are forgotten; or it is admitted with a nonce that is not in the window, and the nonce is recorded. -/
theorem receive_cases (hkey : r.context.handshakeKey.isSome = true) (a : Admission) :
    a.receive r = (.error .invalidResponse, a) ∨
    (∃ e, a.receive r = (.error e, { a with cache := a.cache.purge r.now }) ∧
      ((a.cache.lookUp r.nonce r.now).1 = true → e = .invalidResponse)) ∨
    ((a.cache.lookUp r.nonce r.now).1 = false ∧
      a.receive r = (.ok (), { a with cache := (a.cache.purge r.now).record r.nonce r.now })) := by
  rcases judge_cases a r.context r.headers r.time r.now with hwrong | ⟨hkeyless, -⟩ | ⟨nonce, hcarried, hlooked⟩
  · exact .inl hwrong
  · rw [hkeyless] at hkey
    cases hkey
  · obtain rfl : r.nonce = nonce := by rw [Request.nonce, hcarried, Option.getD_some]
    rcases hlooked with ⟨-, hused⟩ | ⟨hnew, ⟨e, -, hcode⟩ | ⟨-, hadmitted⟩⟩
    · exact .inr (.inl ⟨_, hused, fun _ => rfl⟩)
    · refine .inr (.inl ⟨e, hcode, ?_⟩)
      rw [hnew]
      exact fun hused => absurd hused Bool.false_ne_true
    · exact .inr (.inr ⟨hnew, hadmitted⟩)

private theorem receive_of_used (hkey : r.context.handshakeKey.isSome = true)
    (hused : (a.cache.lookUp r.nonce r.now).1 = true) : (a.receive r).1 = .error .invalidResponse := by
  rcases receive_cases hkey a with hsame | ⟨e, hpurged, hanswer⟩ | ⟨hnew, -⟩
  · rw [hsame]
  · rw [hpurged, hanswer hused]
  · rw [hused] at hnew
    cases hnew

/-- A cache beside the entries of all requests admitted so far: it holds the last ones of them, no more than there is
room for and no nonce twice. -/
structure InOrder (size : Nat) (span : UInt64) (a : Admission) (log : List (Octets × UInt64)) : Prop where
  capacity : a.cache.capacity = size
  window : a.cache.window = span
  bounded : a.cache.entries.length ≤ size
  recent : a.cache.entries <:+ log
  distinct : (a.cache.entries.map Prod.fst).Nodup
  sorted : log.Pairwise fun x y => x.2 ≤ y.2

section InOrder

variable {size : Nat} {span now : UInt64} {log : List (Octets × UInt64)}

private theorem inOrder_start (token : String) (cacheSize : Nat) (span : UInt64) :
    InOrder (max cacheSize 1) span (start token cacheSize span) [] :=
  ⟨rfl, rfl, Nat.zero_le _, List.suffix_refl _, .nil, .nil⟩

theorem InOrder.purge (h : InOrder size span a log) (now : UInt64) :
    InOrder size span { a with cache := a.cache.purge now } log := by
  have hsuffix := NonceCache.purge_suffix (h.sorted.sublist h.recent.sublist) now
  exact ⟨h.capacity, h.window, Nat.le_trans hsuffix.length_le h.bounded, hsuffix.trans h.recent,
    h.distinct.sublist (hsuffix.sublist.map _), h.sorted⟩

theorem InOrder.record (h : InOrder size span a log) (hroom : 0 < size) {nonce : Octets}
    (hnew : ∀ entry ∈ a.cache.entries, entry.1 ≠ nonce) (hlast : ∀ entry ∈ log, entry.2 ≤ now) :
    InOrder size span { a with cache := a.cache.record nonce now } (log ++ [(nonce, now)]) := by
  obtain ⟨kept, hrecord, hkept, hlength⟩ :=
    NonceCache.exists_kept (h.capacity ▸ hroom) (h.capacity ▸ h.bounded) nonce now
  have hsuffix := hkept.trans (NonceCache.purge_suffix (h.sorted.sublist h.recent.sublist) now)
  rw [h.capacity] at hlength
  simp only [hrecord]
  refine ⟨h.capacity, h.window, ?_, ?_, ?_, ?_⟩
  · rw [List.length_append, List.length_singleton]
    exact hlength
  · obtain ⟨front, hfront⟩ := hsuffix.trans h.recent
    exact ⟨front, by rw [← List.append_assoc, hfront]⟩
  · rw [List.map_append, List.map_singleton]
    refine List.nodup_append.mpr ⟨h.distinct.sublist (hsuffix.sublist.map _), List.pairwise_singleton _ _, ?_⟩
    rintro other hother last hlast rfl
    obtain ⟨entry, hentry, rfl⟩ := List.mem_map.mp hother
    exact hnew entry (hsuffix.subset hentry) (List.mem_singleton.mp hlast)
  · refine List.pairwise_append.mpr ⟨h.sorted, List.pairwise_singleton _ _, ?_⟩
    intro entry hentry last hmem
    rw [List.mem_singleton.mp hmem]
    exact hlast entry hentry

private theorem admitted_of_error {e : SecurityError} {next : Admission} (h : a.receive r = (.error e, next)) :
    a.admitted [r] = [] := by
  rw [admitted, h]
  rfl

private theorem admitted_of_ok {next : Admission} (h : a.receive r = (.ok (), next)) : a.admitted [r] = [r] := by
  rw [admitted, h]
  rfl

theorem InOrder.receive (h : InOrder size span a log) (hroom : 0 < size)
    (hkey : r.context.handshakeKey.isSome = true) (hlast : ∀ entry ∈ log, entry.2 ≤ r.now) :
    InOrder size span (a.receive r).2 (log ++ (a.admitted [r]).map Request.entry) := by
  rcases receive_cases hkey a with hsame | ⟨e, hpurged, -⟩ | ⟨hnew, hrecorded⟩
  · rw [admitted_of_error hsame, hsame, List.map_nil, List.append_nil]
    exact h
  · rw [admitted_of_error hpurged, hpurged, List.map_nil, List.append_nil]
    exact h.purge r.now
  · rw [admitted_of_ok hrecorded, hrecorded]
    refine (h.purge r.now).record hroom ?_ hlast
    simpa [NonceCache.lookUp] using hnew

theorem InOrder.run (h : InOrder size span a log) (hroom : 0 < size) {requests : List Request}
    (hkey : ∀ r ∈ requests, r.context.handshakeKey.isSome = true)
    (hclock : requests.Pairwise fun r later => r.now ≤ later.now)
    (hlast : ∀ r ∈ requests, ∀ entry ∈ log, entry.2 ≤ r.now) :
    InOrder size span (a.after requests) (log ++ (a.admitted requests).map Request.entry) := by
  induction requests generalizing a log with
  | nil => simpa [after, admitted] using h
  | cons r requests ih =>
    obtain ⟨hfirst, hclock⟩ := List.pairwise_cons.mp hclock
    have hnext := h.receive hroom (hkey r List.mem_cons_self) (hlast r List.mem_cons_self)
    rw [← List.singleton_append, admitted_append, after_append, List.map_append, ← List.append_assoc]
    refine ih hnext (fun later hlater => hkey later (List.mem_cons_of_mem r hlater)) hclock ?_
    intro later hlater entry hentry
    rcases List.mem_append.mp hentry with hentry | hentry
    · exact hlast later (List.mem_cons_of_mem r hlater) entry hentry
    · obtain ⟨admittedRequest, hadmitted, rfl⟩ := List.mem_map.mp hentry
      obtain rfl := List.mem_singleton.mp ((a.admitted_sublist [r]).subset hadmitted)
      exact hfirst later hlater

end InOrder

section Remembers

variable {entry : Octets × UInt64} {n : Nat}

private theorem cache_receive (hkey : r.context.handshakeKey.isSome = true) :
    (a.receive r).2.cache.capacity = a.cache.capacity ∧ (a.receive r).2.cache.window = a.cache.window := by
  rcases receive_cases hkey a with h | ⟨e, h, -⟩ | ⟨-, h⟩
  all_goals
    rw [h]
    exact ⟨rfl, rfl⟩

private theorem window_after {requests : List Request} (hkey : ∀ r ∈ requests, r.context.handshakeKey.isSome = true) :
    (a.after requests).cache.window = a.cache.window := by
  induction requests generalizing a with
  | nil => rfl
  | cons r requests ih =>
    rw [← (cache_receive (a := a) (hkey r List.mem_cons_self)).2]
    exact ih fun later hlater => hkey later (List.mem_cons_of_mem r hlater)

/-- A live entry moves back by the requests that are admitted, and by no others. -/
theorem remembers_receive (h : a.cache.Remembers entry n) (hkey : r.context.handshakeKey.isSome = true)
    (hlive : NonceCache.isLive a.cache.window r.now entry = true)
    (hroom : n + (a.admitted [r]).length < a.cache.capacity) :
    (a.receive r).2.cache.Remembers entry (n + (a.admitted [r]).length) := by
  rcases receive_cases hkey a with hsame | ⟨e, hpurged, -⟩ | ⟨-, hrecorded⟩
  · rw [admitted_of_error hsame, hsame]
    exact h
  · rw [admitted_of_error hpurged, hpurged]
    exact h.purge hlive
  · rw [admitted_of_ok hrecorded] at hroom ⊢
    rw [hrecorded]
    exact (h.purge hlive).record hlive hroom r.nonce

theorem remembers_after {requests : List Request} (h : a.cache.Remembers entry n)
    (hkey : ∀ r ∈ requests, r.context.handshakeKey.isSome = true)
    (hlive : ∀ r ∈ requests, NonceCache.isLive a.cache.window r.now entry = true)
    (hroom : n + (a.admitted requests).length < a.cache.capacity) :
    (a.after requests).cache.Remembers entry (n + (a.admitted requests).length) := by
  induction requests generalizing a n with
  | nil => exact h
  | cons r requests ih =>
    obtain ⟨hcapacity, hwindow⟩ := cache_receive (a := a) (hkey r List.mem_cons_self)
    rw [← List.singleton_append, admitted_append, List.length_append, ← Nat.add_assoc] at hroom ⊢
    have hnext := remembers_receive h (hkey r List.mem_cons_self) (hlive r List.mem_cons_self) (by omega)
    refine ih hnext (fun later hlater => hkey later (List.mem_cons_of_mem r hlater)) ?_ (hcapacity ▸ hroom)
    intro later hlater
    show NonceCache.isLive (a.receive r).2.cache.window later.now entry = true
    rw [hwindow]
    exact hlive later (List.mem_cons_of_mem r hlater)

theorem receive_replayed {first last : Request} {between : List Request}
    (hkey : ∀ r ∈ first :: last :: between, r.context.handshakeKey.isSome = true)
    (hearlier : ∀ r ∈ between, r.now ≤ last.now) (hfirst : (a.receive first).1 = .ok ())
    (hnonce : last.nonce = first.nonce) (hwindow : last.now.toNat - first.now.toNat ≤ a.cache.window.toNat)
    (hcount : ((a.receive first).2.admitted between).length < a.cache.capacity) :
    ((a.after (first :: between)).receive last).1 = .error .invalidResponse := by
  simp only [List.forall_mem_cons] at hkey
  obtain ⟨hfirstKey, hlastKey, hbetweenKey⟩ := hkey
  obtain ⟨hcapacity, hspan⟩ := cache_receive (a := a) hfirstKey
  -- Right after its admission the nonce has no other behind it.
  have hrecorded : (a.receive first).2.cache.Remembers first.entry 0 := by
    rcases receive_cases hfirstKey a with h | ⟨e, h, -⟩ | ⟨-, h⟩
    · rw [h] at hfirst
      cases hfirst
    · rw [h] at hfirst
      cases hfirst
    · rw [h]
      exact NonceCache.remembers_record _ _ _
  have hlive (r : Request) (hr : r.now ≤ last.now) :
      NonceCache.isLive a.cache.window r.now first.entry = true :=
    NonceCache.isLive_of_le hr (UInt64.le_refl _) (by simpa [NonceCache.isLive, Request.entry] using hwindow)
  rw [← hspan] at hlive
  rw [← hcapacity, ← Nat.zero_add (List.length _)] at hcount
  have hkept := remembers_after hrecorded hbetweenKey (fun r hr => hlive r (hearlier r hr)) hcount
  refine receive_of_used hlastKey ?_
  rw [hnonce]
  refine hkept.lookUp ?_
  rw [window_after hbetweenKey]
  exact hlive last (UInt64.le_refl _)

end Remembers

/-- Over any run of signed requests in which the clock does not go back, the cache holds the last nonces that were
admitted, in order, no more than there is room for and none twice; and a nonce that was admitted is refused within its
time until as many other requests were admitted as there is room for. -/
theorem nonce_refused_in_window (token : String) (cacheSize : Nat) (span : UInt64) (requests : List Request)
    (hkey : ∀ r ∈ requests, r.context.handshakeKey.isSome = true)
    (hclock : requests.Pairwise fun r later => r.now ≤ later.now) :
    let a := start token cacheSize span
    (a.after requests).cache.entries.length ≤ max cacheSize 1 ∧
    (a.after requests).cache.entries <:+ (a.admitted requests).map Request.entry ∧
    ((a.after requests).cache.entries.map Prod.fst).Nodup ∧
    ∀ before first between last rest, requests = before ++ first :: between ++ last :: rest →
      ((a.after before).receive first).1 = .ok () → last.nonce = first.nonce →
      last.now.toNat - first.now.toNat ≤ span.toNat →
      ((a.after (before ++ [first])).admitted between).length < max cacheSize 1 →
      ((a.after (before ++ first :: between)).receive last).1 = .error .invalidResponse := by
  intro a
  have hroom : 0 < max cacheSize 1 := by omega
  have horder := (inOrder_start token cacheSize span).run hroom hkey hclock (by simp)
  refine ⟨horder.bounded, horder.recent, horder.distinct, ?_⟩
  intro before first between last rest hrequests hfirst hnonce hwindow hcount
  subst hrequests
  have hbefore : ∀ r ∈ before, r.context.handshakeKey.isSome = true := fun r hr => hkey r (by simp [hr])
  have hstate : InOrder (max cacheSize 1) span (a.after before) ((a.admitted before).map Request.entry) :=
    (inOrder_start token cacheSize span).run hroom hbefore (hclock.sublist (by simp)) (by simp)
  have hearlier : ∀ r ∈ between, r.now ≤ last.now := fun r hr =>
    (List.pairwise_append.mp hclock).2.2 r (by simp [hr]) last List.mem_cons_self
  rw [after_append a before [first]] at hcount
  rw [after_append]
  refine receive_replayed ?_ hearlier hfirst hnonce (hstate.window ▸ hwindow) (hstate.capacity ▸ hcount)
  intro r hr
  refine hkey r ?_
  simp only [List.mem_cons, List.mem_append] at hr ⊢
  tauto

/-- The same request again in the last millisecond of its time, with room for one more nonce than came between. -/
theorem nonce_refused_in_window_last_moment :
    let key : Key := ⟨List.replicate 32 0x42, rfl⟩
    let request (nonce : Octets) (now : UInt64) : Request := ⟨⟨some key, none, 0, none⟩,
      ⟨Handshake.bearer "tok", some (Hexadecimal.encode nonce), some (Hexadecimal.encode (Hmac.sha256 key.octets
        (nonce ++ Handshake.valueOctets (Handshake.bearer "tok")))), none⟩, 0, now⟩
    let first := request (List.replicate 16 1) 1000
    let other := request (List.replicate 16 2) 1000
    let last := request (List.replicate 16 1) 31000
    let a := start "tok" 2 30000
    (a.receive first).1 = .ok () ∧ ((a.after [first, other]).receive last).1 = .error .invalidResponse := by
  intro key request first other last a
  have hfirst : (a.receive first).1 = .ok () := by
    refine judge_eq_ok_iff.mpr ⟨?_, fun _ => ⟨List.replicate 16 1, ?_, rfl⟩, rfl⟩
    · exact Handshake.Headers.token?_getD_eq_iff.mpr (.inl rfl)
    · exact signedNonce_of_signed (h := first.headers) rfl rfl (show "Bearer tok" ≠ "" by decide) rfl rfl
  have hcount := ((a.after [first]).admitted_sublist [other]).length_le
  refine ⟨hfirst, ?_⟩
  exact (nonce_refused_in_window "tok" 2 30000 [first, other, last] (by simp [first, other, last, request])
    (by simp [first, other, last, request])).2.2.2 [] first [other] last [] rfl hfirst rfl (by decide)
    (Nat.lt_of_le_of_lt hcount (by decide))

end Admission
end FieldLink
