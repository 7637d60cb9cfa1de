import FieldLink.Proofs.NonceEviction
import Mathlib.Data.List.Induction

/-!
# What a history holds after any nonces were recorded

Its places fill up one after another and then stay full. While time stamps rise, the oldest entry is the one
that was recorded first, so that the last eight nonces are those that are held. In which places they stand does
not matter for that: the invariant speaks of them up to their order.
-/

namespace FieldLink.NonceHistory

/-- The history after some entries were recorded one after another, in an empty one. -/
def recorded (records : List NonceEntry) : NonceHistory :=
  records.foldl (fun h entry => h.record entry.nonce entry.timestamp) empty

def proper (records : List NonceEntry) : List NonceEntry := records.filter fun entry => isNonce entry.nonce

def newest (entries : List NonceEntry) : List NonceEntry := entries.drop (entries.length - depth)

variable {h : NonceHistory} {nonce : Octets}

private theorem record_of_improper (hnonce : isNonce nonce = false) (timestamp : UInt64) :
    h.record nonce timestamp = h := by
  rw [record, hnonce, if_neg Bool.false_ne_true]

private theorem length_record (hnonce : isNonce nonce = true) (timestamp : UInt64) :
    (h.record nonce timestamp).entries.length = min (h.entries.length + 1) depth := by
  have hle := h.length_le
  by_cases hfree : h.entries.length < depth
  · rw [record_of_free hnonce hfree, List.length_append, List.length_singleton]
    omega
  · rw [record_of_full hnonce hfree, List.length_set]
    simp only [depth] at hfree ⊢
    omega

private theorem contains_record (hnonce : isNonce nonce = true) (timestamp : UInt64) :
    (h.record nonce timestamp).contains nonce = true := by
  rw [contains, List.any_eq_true]
  refine ⟨⟨nonce, timestamp⟩, ?_, BEq.rfl⟩
  by_cases hfree : h.entries.length < depth
  · rw [record_of_free hnonce hfree]
    exact List.mem_concat_self
  · obtain ⟨before, victim, behind, -, hrecord, -, -⟩ := record_full_split hnonce hfree timestamp
    rw [hrecord]
    exact List.mem_append_right _ List.mem_cons_self

theorem contains_iff : h.contains nonce = true ↔ nonce ∈ h.entries.map NonceEntry.nonce := by
  simp [contains]

section Runs

variable (records : List NonceEntry) {last : NonceEntry}

private theorem recorded_concat (last : NonceEntry) :
    recorded (records ++ [last]) = (recorded records).record last.nonce last.timestamp := by
  rw [recorded, List.foldl_append]
  rfl

private theorem proper_concat (hnonce : isNonce last.nonce = true) :
    proper (records ++ [last]) = proper records ++ [last] := by
  rw [proper, List.filter_append, List.filter_singleton, hnonce, cond_true, proper]

private theorem proper_concat_of_improper (hnonce : isNonce last.nonce = false) :
    proper (records ++ [last]) = proper records := by
  rw [proper, List.filter_append, List.filter_singleton, hnonce, cond_false, List.append_nil, proper]

private theorem length_recorded : (recorded records).entries.length = min (proper records).length depth := by
  induction records using List.reverseRecOn with
  | nil => rfl
  | append_singleton records last ih =>
    rw [recorded_concat]
    cases hnonce : isNonce last.nonce with
    | false => rw [record_of_improper hnonce, ih, proper_concat_of_improper records hnonce]
    | true =>
      rw [length_record hnonce, ih, proper_concat records hnonce, List.length_append, List.length_singleton]
      omega

end Runs

private theorem newest_of_le {entries : List NonceEntry} (h : entries.length ≤ depth) : newest entries = entries := by
  rw [newest, Nat.sub_eq_zero_of_le h, List.drop_zero]

theorem newest_concat {entries : List NonceEntry} (h : depth ≤ entries.length) (last : NonceEntry) :
    newest (entries ++ [last]) = (newest entries).tail ++ [last] := by
  have hplace : (entries ++ [last]).length - depth = entries.length - depth + 1 := by
    rw [List.length_append, List.length_singleton]
    omega
  rw [newest, hplace, List.drop_append_of_le_length (by simp only [depth] at h ⊢; omega), newest, List.tail_drop]

/-- An entry that is not newer than any is the first where all others are newer than the first; what it leaves are the
others. -/
theorem perm_of_oldest {before behind rest : List NonceEntry} {victim first : NonceEntry}
    (hperm : (before ++ victim :: behind).Perm (first :: rest))
    (hmin : ∀ other ∈ before ++ victim :: behind, victim.timestamp ≤ other.timestamp)
    (hfirst : ∀ other ∈ rest, first.timestamp < other.timestamp) : (before ++ behind).Perm rest := by
  have hmiddle : (victim :: (before ++ behind)).Perm (first :: rest) := List.perm_middle.symm.trans hperm
  have hvictim : victim = first := by
    rcases List.mem_cons.mp (hmiddle.subset List.mem_cons_self) with hsame | hrest
    · exact hsame
    · have hle := hmin first (hperm.symm.subset List.mem_cons_self)
      exact absurd (hfirst victim hrest) (UInt64.not_lt.mpr hle)
  subst hvictim
  exact hmiddle.cons_inv

/-- While time stamps rise, the newest entries are held, in some order. -/
theorem recorded_perm_newest {records : List NonceEntry}
    (hrising : (proper records).Pairwise fun entry later => entry.timestamp < later.timestamp) :
    (recorded records).entries.Perm (newest (proper records)) := by
  induction records using List.reverseRecOn with
  | nil => exact List.Perm.refl _
  | append_singleton records last ih =>
    rw [recorded_concat]
    cases hnonce : isNonce last.nonce with
    | false =>
      rw [record_of_improper hnonce]
      rw [proper_concat_of_improper records hnonce] at hrising ⊢
      exact ih hrising
    | true =>
      rw [proper_concat records hnonce] at hrising ⊢
      obtain ⟨hrising, -, -⟩ := List.pairwise_append.mp hrising
      have hheld := ih hrising
      have hlength := length_recorded records
      by_cases hfree : (recorded records).entries.length < depth
      · rw [newest_of_le (by omega)] at hheld
        rw [record_of_free hnonce hfree, newest_of_le (by rw [List.length_append, List.length_singleton]; omega)]
        exact hheld.append_right _
      · obtain ⟨before, victim, behind, hentries, hrecord, hmin, -⟩ :=
          record_full_split hnonce hfree last.timestamp
        rw [hrecord, newest_concat (by omega)]
        -- The newest entries are rising too, so that the first of them is the one that goes.
        have hrising := hrising.drop (i := (proper records).length - depth)
        rw [← newest] at hrising
        rw [hentries] at hheld hmin
        generalize newest (proper records) = held at hheld hrising
        cases held with
        | nil => simp at hheld
        | cons first rest =>
          have hrest := perm_of_oldest hheld hmin (List.pairwise_cons.mp hrising).1
          exact List.perm_middle.trans ((hrest.cons last).trans (List.perm_append_singleton last rest).symm)

/-- After any records there are as many entries as there were proper ones, up to eight. What is no nonce changes
nothing; a nonce is held once it is recorded, in a free place if there is one, else in that of the oldest entry, the
first of several, and no other entry moves. While the time stamps rise, exactly the last eight nonces are held. -/
theorem recorded_holds_newest (records : List NonceEntry) :
    (recorded records).size = min (proper records).length 8 ∧
    (∀ (nonce : Octets) (timestamp : UInt64), nonce = [] ∨ 16 < nonce.length →
      (recorded records).record nonce timestamp = recorded records) ∧
    (∀ (nonce : Octets) (timestamp : UInt64), 1 ≤ nonce.length → nonce.length ≤ 16 →
      ((recorded records).record nonce timestamp).contains nonce = true ∧
      ((recorded records).size < 8 → ((recorded records).record nonce timestamp).entries =
        (recorded records).entries ++ [⟨nonce, timestamp⟩]) ∧
      ((recorded records).size = 8 → ∃ before victim behind,
        (recorded records).entries = before ++ victim :: behind ∧
        ((recorded records).record nonce timestamp).entries = before ++ ⟨nonce, timestamp⟩ :: behind ∧
        (∀ other ∈ before ++ behind, victim.timestamp ≤ other.timestamp) ∧
        ∀ other ∈ before, victim.timestamp < other.timestamp)) ∧
    ((proper records).Pairwise (fun entry later => entry.timestamp < later.timestamp) → ∀ nonce : Octets,
      (recorded records).contains nonce = true ↔
        nonce ∈ ((proper records).drop ((proper records).length - 8)).map NonceEntry.nonce) := by
  refine ⟨length_recorded records, ?_, ?_, ?_⟩
  · intro nonce timestamp himproper
    refine record_of_improper ?_ timestamp
    rw [← Bool.not_eq_true, isNonce_iff]
    rintro ⟨hlower, hupper⟩
    rcases himproper with rfl | hlong
    · cases hlower
    · omega
  · intro nonce timestamp hlower hupper
    have hnonce := isNonce_iff.mpr ⟨hlower, hupper⟩
    refine ⟨contains_record hnonce timestamp, fun hfree => record_of_free hnonce hfree timestamp, ?_⟩
    intro hfull
    obtain ⟨before, victim, behind, hentries, hrecord, hmin, hfirst⟩ :=
      record_full_split hnonce (Nat.not_lt.mpr (Nat.le_of_eq hfull.symm)) timestamp
    refine ⟨before, victim, behind, hentries, hrecord, ?_, hfirst⟩
    intro other hother
    refine hmin other ?_
    rw [hentries]
    exact ((List.sublist_cons_self victim behind).append_left before).subset hother
  · intro hrising nonce
    rw [contains_iff]
    exact ((recorded_perm_newest hrising).map NonceEntry.nonce).mem_iff

/-- The ninth nonce takes the place of the first. -/
example :
    let h := recorded (([1, 2, 3, 4, 5, 6, 7, 8, 9] : List UInt8).map fun n => ⟨[n], n.toUInt64⟩)
    h.contains [1] = false ∧ h.entries.map NonceEntry.nonce = [[9], [2], [3], [4], [5], [6], [7], [8]] := by
  decide

end FieldLink.NonceHistory
