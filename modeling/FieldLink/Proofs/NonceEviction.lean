import FieldLink.NonceHistory
import Mathlib.Data.List.Basic

/-!
# How long a nonce is remembered

A full history gives up its oldest entry, the first of several; so an entry stays while some other one is older,
or as old and in an earlier place. The entries that outlast it are counted, and each further record adds at most
one to them.
-/

namespace FieldLink.NonceHistory

/-- How many entries outlast the one of a nonce with a time stamp: those before it that are newer, and those
behind it that are not older. -/
def outlasting (nonce : Octets) (timestamp : UInt64) : List NonceEntry → Nat
  | [] => 0
  | entry :: rest =>
    if entry.nonce = nonce then rest.countP (timestamp ≤ ·.timestamp)
    else (if timestamp < entry.timestamp then 1 else 0) + outlasting nonce timestamp rest

private theorem outlasting_append {nonce : Octets} {before : List NonceEntry}
    (hbefore : ∀ entry ∈ before, entry.nonce ≠ nonce) (timestamp : UInt64)
    (behind : List NonceEntry) :
    outlasting nonce timestamp (before ++ ⟨nonce, timestamp⟩ :: behind) =
      before.countP (timestamp < ·.timestamp) + behind.countP (timestamp ≤ ·.timestamp) := by
  induction before with
  | nil => simp [outlasting]
  | cons entry before ih =>
    have hentry := hbefore entry (List.mem_cons_self ..)
    have hrest := ih fun entry h => hbefore entry (List.mem_cons_of_mem _ h)
    simp only [List.cons_append, outlasting, if_neg hentry, hrest, List.countP_cons,
      decide_eq_true_eq]
    omega

/-- A history with exactly one entry for a nonce, which has the given time stamp. -/
def Remembers (h : NonceHistory) (nonce : Octets) (timestamp : UInt64) : Prop :=
  ∃ before behind, h.entries = before ++ ⟨nonce, timestamp⟩ :: behind ∧
    (∀ entry ∈ before, entry.nonce ≠ nonce) ∧ ∀ entry ∈ behind, entry.nonce ≠ nonce

variable {h : NonceHistory} {nonce other : Octets} {timestamp time : UInt64}

theorem isNonce_iff : isNonce nonce = true ↔ 1 ≤ nonce.length ∧ nonce.length ≤ 16 := by
  rw [isNonce, decide_eq_true_eq, maxNonceLength, Nat.one_le_iff_ne_zero, ne_eq, ne_eq, List.length_eq_zero_iff]

theorem Remembers.contains (hr : h.Remembers nonce timestamp) : h.contains nonce = true := by
  obtain ⟨before, behind, hentries, -, -⟩ := hr
  simp [NonceHistory.contains, hentries]

theorem contains_eq_false_iff : h.contains nonce = false ↔ ∀ entry ∈ h.entries, entry.nonce ≠ nonce := by
  simp only [contains, List.any_eq_false, beq_iff_eq]

private theorem exists_oldest {entries : List NonceEntry} (hne : entries ≠ []) :
    ∃ entry ∈ entries, ∀ other ∈ entries, entry.timestamp ≤ other.timestamp := by
  induction entries with
  | nil => exact absurd rfl hne
  | cons first rest ih =>
    by_cases hrest : rest = []
    · subst hrest
      exact ⟨first, List.mem_cons_self .., by simp⟩
    · obtain ⟨entry, hentry, hle⟩ := ih hrest
      by_cases hfirst : first.timestamp ≤ entry.timestamp
      · refine ⟨first, List.mem_cons_self .., ?_⟩
        intro other hother
        rcases List.mem_cons.1 hother with rfl | hother
        · exact UInt64.le_refl _
        · exact UInt64.le_trans hfirst (hle other hother)
      · refine ⟨entry, List.mem_cons_of_mem _ hentry, ?_⟩
        intro other hother
        rcases List.mem_cons.1 hother with rfl | hother
        · exact UInt64.le_of_lt (UInt64.not_le.1 hfirst)
        · exact hle other hother

private theorem split_oldest {entries : List NonceEntry} (hne : entries ≠ []) :
    ∃ before entry behind, entries = before ++ entry :: behind ∧ oldest entries = before.length ∧
      (∀ other ∈ entries, entry.timestamp ≤ other.timestamp) ∧
      ∀ other ∈ before, entry.timestamp < other.timestamp := by
  obtain ⟨least, hleast, hle⟩ := exists_oldest hne
  have hlt : oldest entries < entries.length := by
    apply List.findIdx_lt_length_of_exists
    exact ⟨least, hleast, by simpa using hle⟩
  have hmin := List.findIdx_getElem (w := hlt)
  simp only [List.all_eq_true, decide_eq_true_eq] at hmin
  refine ⟨entries.take (oldest entries), entries[oldest entries], entries.drop (oldest entries + 1),
    ?_, ?_, hmin, ?_⟩
  · rw [← List.drop_eq_getElem_cons hlt, List.take_append_drop]
  · rw [List.length_take_of_le (Nat.le_of_lt hlt)]
  · intro earlier hearlier
    obtain ⟨i, hi, rfl⟩ := List.mem_iff_getElem.1 hearlier
    rw [List.length_take_of_le (Nat.le_of_lt hlt)] at hi
    have hnot := List.not_of_lt_findIdx hi
    obtain ⟨other, hother, hlt⟩ : ∃ other ∈ entries, ¬entries[i].timestamp ≤ other.timestamp := by
      simpa using hnot
    rw [List.getElem_take]
    exact UInt64.lt_of_le_of_lt (hmin other hother) (UInt64.not_le.1 hlt)

theorem record_of_free (hnonce : isNonce nonce) (hfree : h.entries.length < depth)
    (timestamp : UInt64) : (h.record nonce timestamp).entries = h.entries ++ [⟨nonce, timestamp⟩] := by
  simp [record, hnonce, hfree]

theorem record_of_full (hnonce : isNonce nonce) (hfull : ¬h.entries.length < depth)
    (timestamp : UInt64) :
    (h.record nonce timestamp).entries = h.entries.set (oldest h.entries) ⟨nonce, timestamp⟩ := by
  simp [record, hnonce, hfull]

/-- In a full history one entry goes, none of the others is older, and the new one takes its place. -/
theorem record_full_split (hnonce : isNonce nonce) (hfull : ¬h.entries.length < depth)
    (timestamp : UInt64) :
    ∃ before victim behind, h.entries = before ++ victim :: behind ∧
      (h.record nonce timestamp).entries = before ++ ⟨nonce, timestamp⟩ :: behind ∧
      (∀ other ∈ h.entries, victim.timestamp ≤ other.timestamp) ∧
      ∀ other ∈ before, victim.timestamp < other.timestamp := by
  have hne : h.entries ≠ [] := by
    intro hempty
    simp [hempty, depth] at hfull
  obtain ⟨before, victim, behind, hentries, hplace, hmin, hfirst⟩ := split_oldest hne
  refine ⟨before, victim, behind, hentries, ?_, hmin, hfirst⟩
  rw [record_of_full hnonce hfull, hplace, hentries]
  simp

theorem record_remembers (hnonce : isNonce nonce) (hnew : h.contains nonce = false)
    (timestamp : UInt64) : (h.record nonce timestamp).Remembers nonce timestamp := by
  have hother := contains_eq_false_iff.mp hnew
  by_cases hfree : h.entries.length < depth
  · exact ⟨h.entries, [], record_of_free hnonce hfree timestamp, hother, by simp⟩
  · obtain ⟨before, victim, behind, hentries, hrecord, -, -⟩ :=
      record_full_split hnonce hfree timestamp
    refine ⟨before, behind, hrecord, ?_, ?_⟩
    · intro entry hentry
      exact hother entry (by simp [hentries, hentry])
    · intro entry hentry
      exact hother entry (by simp [hentries, hentry])

private theorem countP_of_oldest {before behind : List NonceEntry}
    (hbefore : ∀ entry ∈ before, timestamp < entry.timestamp)
    (hbehind : ∀ entry ∈ behind, timestamp ≤ entry.timestamp) :
    before.countP (timestamp < ·.timestamp) + behind.countP (timestamp ≤ ·.timestamp) =
      before.length + behind.length := by
  rw [List.countP_eq_length.2 (by simpa using hbefore), List.countP_eq_length.2 (by simpa using hbehind)]

private theorem nonce_ne_of_mem_append {before behind : List NonceEntry}
    (hbefore : ∀ entry ∈ before, entry.nonce ≠ nonce) (hne : other ≠ nonce) (time : UInt64)
    (hbehind : ∀ entry ∈ behind, entry.nonce ≠ nonce) :
    ∀ entry ∈ before ++ ⟨other, time⟩ :: behind, entry.nonce ≠ nonce := by
  intro entry hentry
  rcases List.mem_append.1 hentry with hentry | hentry
  · exact hbefore entry hentry
  · rcases List.mem_cons.1 hentry with rfl | hentry
    · exact hne
    · exact hbehind entry hentry

private theorem Remembers.record_full (hr : h.Remembers nonce timestamp) (hnonce : isNonce other)
    (hne : other ≠ nonce) (hfew : outlasting nonce timestamp h.entries < 7)
    (hfull : ¬h.entries.length < depth) (time : UInt64) :
    (h.record other time).Remembers nonce timestamp ∧
      outlasting nonce timestamp (h.record other time).entries ≤
        outlasting nonce timestamp h.entries + 1 := by
  obtain ⟨before, behind, hentries, hbefore, hbehind⟩ := hr
  obtain ⟨earlier, victim, later, hsplit, hrecord, hmin, hfirst⟩ :=
    record_full_split hnonce hfull time
  have hmine := hmin ⟨nonce, timestamp⟩ (by simp [hentries])
  rw [hentries, outlasting_append hbefore] at hfew ⊢
  have hother : ¬(earlier = before ∧ victim = ⟨nonce, timestamp⟩ ∧ later = behind) := by
    rintro ⟨rfl, rfl, rfl⟩
    have hlater : ∀ entry ∈ later, timestamp ≤ entry.timestamp :=
      fun entry hentry => hmin entry (by simp [hentries, hentry])
    have hall := countP_of_oldest hfirst hlater
    simp only at hall
    have hle := h.length_le
    simp only [hentries, List.length_append, List.length_cons, depth] at hle hfull
    omega
  -- The victim stands behind the entry or before it.
  rcases List.append_eq_append_iff.1 (hentries.symm.trans hsplit) with
    ⟨middle, hearlier, hmiddle⟩ | ⟨middle, hearlier, hmiddle⟩
  · cases middle with
    | nil => simp_all
    | cons entry gap =>
      obtain ⟨rfl, rfl⟩ : ⟨nonce, timestamp⟩ = entry ∧ behind = gap ++ victim :: later := by
        simpa using hmiddle
      have hvictim := UInt64.not_le.2 (hfirst ⟨nonce, timestamp⟩ (by simp [hearlier]))
      have hbehind' := nonce_ne_of_mem_append
        (fun entry h => hbehind entry (List.mem_append_left _ h)) hne time
        (fun entry h => hbehind entry (List.mem_append_right _ (List.mem_cons_of_mem _ h)))
      rw [hearlier, List.append_assoc, List.cons_append] at hrecord
      refine ⟨⟨before, _, hrecord, hbefore, hbehind'⟩, ?_⟩
      rw [hrecord, outlasting_append hbefore]
      simp only [List.countP_append, List.countP_cons, decide_eq_true_eq, hvictim, if_false]
      split <;> omega
  · cases middle with
    | nil => simp_all
    | cons entry gap =>
      obtain ⟨rfl, rfl⟩ : victim = entry ∧ later = gap ++ ⟨nonce, timestamp⟩ :: behind := by
        simpa using hmiddle
      subst hearlier
      have hvictim := UInt64.not_lt.2 hmine
      have hbefore' := nonce_ne_of_mem_append
        (fun entry h => hbefore entry (List.mem_append_left _ h)) hne time
        (fun entry h => hbefore entry (List.mem_append_right _ (List.mem_cons_of_mem _ h)))
      rw [← List.cons_append, ← List.append_assoc] at hrecord
      refine ⟨⟨_, behind, hrecord, hbefore', hbehind⟩, ?_⟩
      rw [hrecord, outlasting_append hbefore']
      simp only [List.countP_append, List.countP_cons, decide_eq_true_eq, hvictim, if_false]
      split <;> omega

/-- While fewer than seven entries outlast it, a nonce is remembered through one more record, and at most one
entry more outlasts it then. -/
theorem Remembers.record (hr : h.Remembers nonce timestamp) (hnonce : isNonce other)
    (hne : other ≠ nonce) (hfew : outlasting nonce timestamp h.entries < 7) (time : UInt64) :
    (h.record other time).Remembers nonce timestamp ∧
      outlasting nonce timestamp (h.record other time).entries ≤
        outlasting nonce timestamp h.entries + 1 := by
  by_cases hfree : h.entries.length < depth
  · obtain ⟨before, behind, hentries, hbefore, hbehind⟩ := hr
    have hrecord : (h.record other time).entries =
        before ++ ⟨nonce, timestamp⟩ :: (behind ++ [⟨other, time⟩]) := by
      rw [record_of_free hnonce hfree, hentries]
      simp
    have hbehind' := nonce_ne_of_mem_append hbehind hne time (List.forall_mem_nil _)
    refine ⟨⟨before, _, hrecord, hbefore, hbehind'⟩, ?_⟩
    rw [hrecord, hentries, outlasting_append hbefore, outlasting_append hbefore, List.countP_append,
      List.countP_singleton]
    split <;> omega
  · exact hr.record_full hnonce hne hfew hfree time

theorem Remembers.outlasting_eq_zero (hr : h.Remembers nonce timestamp)
    (hnewest : ∀ entry ∈ h.entries, entry.nonce ≠ nonce → entry.timestamp < timestamp) :
    outlasting nonce timestamp h.entries = 0 := by
  obtain ⟨before, behind, hentries, hbefore, hbehind⟩ := hr
  rw [hentries, outlasting_append hbefore, Nat.add_eq_zero_iff, List.countP_eq_zero,
    List.countP_eq_zero]
  constructor
  · intro entry hentry
    have hlt := hnewest entry (by simp [hentries, hentry]) (hbefore entry hentry)
    simpa using UInt64.le_of_lt hlt
  · intro entry hentry
    have hlt := hnewest entry (by simp [hentries, hentry]) (hbehind entry hentry)
    simpa using hlt

end FieldLink.NonceHistory
