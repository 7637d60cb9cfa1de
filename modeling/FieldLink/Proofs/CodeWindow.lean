import FieldLink.NumberText
import FieldLink.OneTimeCode
import FieldLink.Whitespace
import Mathlib.Algebra.Order.Ring.Int

/-!
# One-time codes near a time

A code is accepted just if it belongs to a time a whole number of periods away, within the window: a distance
that is cut off at the greatest time neither adds a code nor hides one. That is a statement about periods as
well, since a code knows of its time only the period. And a code that is written with zeros in front is read
back.
-/

namespace FieldLink

namespace CodeSettings

/-- A code of a time that lies so many periods away as the window allows, neither before zero nor past the greatest
time. -/
def InWindow (s : CodeSettings) (time : UInt64) (code : UInt32) : Prop :=
  ∃ (steps : Int) (moment : Nat), steps.natAbs ≤ s.window.toNat ∧
    (moment : Int) = time.toNat + steps * s.period.toNat ∧ moment < 2 ^ 64 ∧ s.codeAt moment = code

variable {s : CodeSettings}

theorem check_eq_ok_iff :
    s.check = .ok () ↔ s.seed ≠ [] ∧ s.period ≠ 0 ∧ 6 ≤ s.digits ∧ s.digits ≤ 8 := by
  rw [check]
  split
  · next hseed => simp [hseed]
  · next hseed =>
    split
    · next hperiod => simp [hperiod]
    · next hperiod => simp [hseed, hperiod]

theorem period_pos_of_check (h : s.check = .ok ()) : 0 < s.period.toNat := by
  have hperiod := (check_eq_ok_iff.mp h).2.1
  refine Nat.pos_of_ne_zero fun hzero => hperiod (UInt64.toNat_inj.mp ?_)
  simpa using hzero

theorem matchesBefore_eq_true_iff {time steps : Nat} {code : UInt32} :
    s.matchesBefore time code steps = true ↔
      ∃ k, 0 < k ∧ k ≤ steps ∧ s.distance k ≤ time ∧ s.codeAt (time - s.distance k) = code := by
  induction steps with
  | zero =>
    simp only [matchesBefore, Bool.false_eq_true, false_iff]
    rintro ⟨k, hpos, hle, -⟩
    omega
  | succ steps ih =>
    rw [matchesBefore]
    split
    · next hmatch => exact iff_of_true rfl ⟨steps + 1, by omega, Nat.le_refl _, hmatch⟩
    · next hother =>
      rw [ih]
      constructor
      · rintro ⟨k, hpos, hle, hmatch⟩
        exact ⟨k, hpos, Nat.le_succ_of_le hle, hmatch⟩
      · rintro ⟨k, hpos, hle, hmatch⟩
        have hne : k ≠ steps + 1 := by
          rintro rfl
          exact hother hmatch
        exact ⟨k, hpos, by omega, hmatch⟩

theorem matchesAfter_eq_true_iff {time steps : Nat} {code : UInt32} (htime : time < 2 ^ 64) :
    s.matchesAfter time code steps = true ↔
      ∃ k ≤ steps, time + s.distance k < 2 ^ 64 ∧ s.codeAt (time + s.distance k) = code := by
  induction steps with
  | zero =>
    have hzero : s.distance 0 = 0 := by simp [distance]
    simp only [matchesAfter, decide_eq_true_eq, Nat.le_zero_eq, exists_eq_left, hzero, Nat.add_zero]
    exact (and_iff_right htime).symm
  | succ steps ih =>
    rw [matchesAfter]
    split
    · next hmatch => exact iff_of_true rfl ⟨steps + 1, Nat.le_refl _, hmatch⟩
    · next hother =>
      rw [ih]
      constructor
      · rintro ⟨k, hle, hmatch⟩
        exact ⟨k, Nat.le_succ_of_le hle, hmatch⟩
      · rintro ⟨k, hle, hmatch⟩
        have hne : k ≠ steps + 1 := by
          rintro rfl
          exact hother hmatch
        exact ⟨k, by omega, hmatch⟩

section Distance

variable {time k : Nat} (hperiod : 0 < s.period.toNat) (htime : time < 2 ^ 64)
include hperiod htime

private theorem exists_steps_before (h : s.distance k ≤ time) :
    ∃ j ≤ k, j * s.period.toNat ≤ time ∧ s.codeAt (time - s.distance k) = s.codeAt (time - j * s.period.toNat) := by
  by_cases hfar : k * s.period.toNat ≤ 2 ^ 64 - 1
  · have hdistance : s.distance k = k * s.period.toNat := Nat.min_eq_left hfar
    rw [hdistance] at h ⊢
    exact ⟨k, Nat.le_refl k, h, rfl⟩
  · -- The distance is the greatest time, and so is the time: what is left is zero, in the first period.
    have hdistance : s.distance k = 2 ^ 64 - 1 := Nat.min_eq_right (by omega)
    have hleft : time - s.distance k = 0 := by omega
    have hsteps : time / s.period.toNat < k := (Nat.div_lt_iff_lt_mul hperiod).mpr (by omega)
    refine ⟨time / s.period.toNat, Nat.le_of_lt hsteps, Nat.div_mul_le_self _ _, ?_⟩
    have hrest : time - time / s.period.toNat * s.period.toNat = time % s.period.toNat := by
      have := Nat.div_add_mod' time s.period.toNat
      omega
    rw [codeAt, codeAt, hleft, hrest, Nat.zero_div, Nat.div_eq_of_lt (Nat.mod_lt _ hperiod)]

private theorem exists_steps_after (h : time + s.distance k < 2 ^ 64) :
    ∃ j ≤ k, time + j * s.period.toNat < 2 ^ 64 ∧
      s.codeAt (time + s.distance k) = s.codeAt (time + j * s.period.toNat) := by
  by_cases hfar : k * s.period.toNat ≤ 2 ^ 64 - 1
  · have hdistance : s.distance k = k * s.period.toNat := Nat.min_eq_left hfar
    rw [hdistance] at h ⊢
    exact ⟨k, Nat.le_refl k, h, rfl⟩
  · -- The distance is the greatest time, and the time is zero.
    have hdistance : s.distance k = 2 ^ 64 - 1 := Nat.min_eq_right (by omega)
    obtain rfl : time = 0 := by omega
    have hsteps : (2 ^ 64 - 1) / s.period.toNat < k := (Nat.div_lt_iff_lt_mul hperiod).mpr (by omega)
    have hreached := Nat.div_mul_le_self (2 ^ 64 - 1) s.period.toNat
    refine ⟨(2 ^ 64 - 1) / s.period.toNat, Nat.le_of_lt hsteps, by omega, ?_⟩
    rw [codeAt, codeAt, hdistance, Nat.zero_add, Nat.zero_add, Nat.mul_div_cancel _ hperiod]

end Distance

private theorem distance_eq {k time : Nat} (h : k * s.period.toNat ≤ time) (htime : time < 2 ^ 64) :
    s.distance k = k * s.period.toNat := Nat.min_eq_left (by omega)

theorem verify_eq_ok_true_iff {time : UInt64} {code : UInt32} :
    s.verify time code = .ok true ↔ s.check = .ok () ∧ s.InWindow time code := by
  cases hcheck : s.check with
  | error e => simp [verify, hcheck, bind, Except.bind]
  | ok =>
    have hperiod := period_pos_of_check hcheck
    have htime := time.toNat_lt
    simp only [verify, hcheck, bind, Except.bind, pure, Except.pure, Except.ok.injEq, Bool.or_eq_true, true_and,
      matchesBefore_eq_true_iff, matchesAfter_eq_true_iff htime]
    constructor
    · rintro (⟨k, -, hk, hreach, rfl⟩ | ⟨k, hk, hreach, rfl⟩)
      · obtain ⟨j, hj, hle, hcode⟩ := exists_steps_before hperiod htime hreach
        refine ⟨-(j : Int), time.toNat - j * s.period.toNat, by omega, ?_, by omega, hcode.symm⟩
        rw [Int.neg_mul, Int.ofNat_sub hle, Int.natCast_mul]
        omega
      · obtain ⟨j, hj, hlt, hcode⟩ := exists_steps_after hperiod htime hreach
        exact ⟨j, time.toNat + j * s.period.toNat, by omega, by simp, hlt, hcode.symm⟩
    · rintro ⟨steps, moment, hsteps, hmoment, hlt, rfl⟩
      rcases Int.lt_or_le steps 0 with hneg | hpos
      · obtain ⟨k, rfl⟩ : ∃ k : Nat, steps = -(k : Int) := ⟨steps.natAbs, by omega⟩
        rw [Int.neg_mul, ← Int.natCast_mul] at hmoment
        have hle : k * s.period.toNat ≤ time.toNat := by omega
        have hdistance := distance_eq hle htime
        refine .inl ⟨k, by omega, by omega, by omega, ?_⟩
        rw [hdistance, show time.toNat - k * s.period.toNat = moment by omega]
      · obtain ⟨k, rfl⟩ : ∃ k : Nat, steps = k := ⟨steps.toNat, by omega⟩
        rw [← Int.natCast_mul] at hmoment
        have hdistance := distance_eq (show k * s.period.toNat ≤ moment by omega) hlt
        refine .inr ⟨k, by omega, by omega, ?_⟩
        rw [hdistance, show time.toNat + k * s.period.toNat = moment by omega]

/-- The codes in the window are those of the periods that lie no further away than the window allows. The moment has the
place in its period that the time has in its own. -/
theorem inWindow_iff_exists_number (hperiod : 0 < s.period.toNat) {time : UInt64} {code : UInt32} :
    s.InWindow time code ↔ ∃ number : Nat,
      ((number : Int) - (time.toNat / s.period.toNat : Nat)).natAbs ≤ s.window.toNat ∧
      number * s.period.toNat + time.toNat % s.period.toNat < 2 ^ 64 ∧ s.codeOfPeriod number = code := by
  have hsplit := Nat.div_add_mod' time.toNat s.period.toNat
  constructor
  · rintro ⟨steps, moment, hsteps, hmoment, hlt, rfl⟩
    have hne : (s.period.toNat : Int) ≠ 0 := by omega
    have hnumber : ((moment / s.period.toNat : Nat) : Int) = (time.toNat / s.period.toNat : Nat) + steps := by
      rw [Int.natCast_ediv, hmoment, Int.add_mul_ediv_right _ _ hne, Int.natCast_ediv]
    have hplace : moment % s.period.toNat = time.toNat % s.period.toNat := by
      apply Int.ofNat.inj
      show ((moment % s.period.toNat : Nat) : Int) = (time.toNat % s.period.toNat : Nat)
      rw [Int.natCast_emod, hmoment, Int.add_mul_emod_self_right, Int.natCast_emod]
    refine ⟨moment / s.period.toNat, by omega, ?_, rfl⟩
    rw [← hplace, Nat.div_add_mod']
    exact hlt
  · rintro ⟨number, hnear, hlt, rfl⟩
    refine ⟨number - (time.toNat / s.period.toNat : Nat), number * s.period.toNat + time.toNat % s.period.toNat, hnear,
      ?_, hlt, ?_⟩
    · rw [Int.sub_mul, ← Int.natCast_mul, ← Int.natCast_mul]
      omega
    · rw [codeAt, Nat.mul_comm, Nat.mul_add_div hperiod, Nat.div_eq_of_lt (Nat.mod_lt _ hperiod), Nat.add_zero]

/-- Two times in periods that lie no further apart than the window have each the code of the other, unless the window
ends past the greatest time. -/
theorem inWindow_codeAt {sent seen : UInt64} (hperiod : 0 < s.period.toNat)
    (hnear : ((sent.toNat / s.period.toNat : Nat) - (seen.toNat / s.period.toNat : Nat) : Int).natAbs ≤
      s.window.toNat)
    (hend : seen.toNat + s.window.toNat * s.period.toNat < 2 ^ 64) :
    s.InWindow seen (s.codeAt sent.toNat) := by
  refine (inWindow_iff_exists_number hperiod).mpr ⟨sent.toNat / s.period.toNat, hnear, ?_, rfl⟩
  have hsplit := Nat.div_add_mod' seen.toNat s.period.toNat
  have hreach : sent.toNat / s.period.toNat * s.period.toNat ≤
      seen.toNat / s.period.toNat * s.period.toNat + s.window.toNat * s.period.toNat := by
    rw [← Nat.add_mul]
    exact Nat.mul_le_mul_right _ (by omega)
  omega

theorem exists_verify_eq_ok_iff {time : UInt64} {code : UInt32} :
    (∃ accepted, s.verify time code = .ok accepted) ↔ s.check = .ok () := by
  rw [verify]
  cases hcheck : s.check with
  | error fault => simp [bind, Except.bind]
  | ok => simp [bind, Except.bind, pure, Except.pure]

theorem compute_eq_ok_iff {time : UInt64} {code : UInt32} :
    s.compute time = .ok code ↔ s.check = .ok () ∧ s.codeAt time.toNat = code := by
  rw [compute]
  cases hcheck : s.check with
  | error fault => simp [bind, Except.bind]
  | ok => simp [bind, Except.bind, pure, Except.pure]

/-- Verifying answers just for a seed that is not empty, a period that is not zero and six to eight digits, and is a
fault for all others. A code is accepted just if it is computed for a time some whole periods away, up to the window and
neither before zero nor past the greatest time; in other words, if it belongs to a period that is no further away. -/
theorem verify_accepts_window (s : CodeSettings) (time : UInt64) (code : UInt32) :
    ((∃ accepted, s.verify time code = .ok accepted) ↔
      s.seed ≠ [] ∧ s.period ≠ 0 ∧ 6 ≤ s.digits ∧ s.digits ≤ 8) ∧
    ((∃ fault, s.verify time code = .error fault) ↔
      ¬(s.seed ≠ [] ∧ s.period ≠ 0 ∧ 6 ≤ s.digits ∧ s.digits ≤ 8)) ∧
    (s.verify time code = .ok true ↔ ∃ (steps : Int) (moment : UInt64), steps.natAbs ≤ s.window.toNat ∧
      (moment.toNat : Int) = time.toNat + steps * s.period.toNat ∧ s.compute moment = .ok code) ∧
    (s.verify time code = .ok true ↔ (s.seed ≠ [] ∧ s.period ≠ 0 ∧ 6 ≤ s.digits ∧ s.digits ≤ 8) ∧ ∃ number : Nat,
      ((number : Int) - (time.toNat / s.period.toNat : Nat)).natAbs ≤ s.window.toNat ∧
      number * s.period.toNat + time.toNat % s.period.toNat < 2 ^ 64 ∧ s.codeOfPeriod number = code) := by
  rw [← check_eq_ok_iff]
  refine ⟨exists_verify_eq_ok_iff, ?_, ?_, ?_⟩
  · have hanswers : (∃ accepted, s.verify time code = .ok accepted) ↔ s.check = .ok () := exists_verify_eq_ok_iff
    rw [← hanswers]
    cases s.verify time code <;> simp
  · rw [verify_eq_ok_true_iff]
    simp only [compute_eq_ok_iff]
    constructor
    · rintro ⟨hcheck, steps, moment, hsteps, hmoment, hlt, hcode⟩
      refine ⟨steps, .ofNat moment, hsteps, ?_, hcheck, ?_⟩
      · rw [UInt64.toNat_ofNat_of_lt' hlt, hmoment]
      · rw [UInt64.toNat_ofNat_of_lt' hlt, hcode]
    · rintro ⟨steps, moment, hsteps, hmoment, hcheck, hcode⟩
      exact ⟨hcheck, steps, moment.toNat, hsteps, hmoment, moment.toNat_lt, hcode⟩
  · rw [verify_eq_ok_true_iff]
    exact and_congr_right fun hcheck => inWindow_iff_exists_number (period_pos_of_check hcheck)

end CodeSettings

namespace NumberText

theorem digits?_of_isDigit {digits : List Char} (h : ∀ c ∈ digits, c.isDigit = true) (n : Nat) :
    digits? n digits = some (Nat.ofDigitChars 10 digits n) := by
  induction digits generalizing n with
  | nil => rfl
  | cons c digits ih =>
    rw [digits?, if_pos (h c List.mem_cons_self), ih (fun d hd => h d (List.mem_cons_of_mem c hd)),
      Nat.ofDigitChars_cons, Nat.mul_comm]
    rfl

private theorem isSpace_of_isDigit {c : Char} (h : c.isDigit = true) : isSpace c = false := by
  have hvalue : 48 ≤ c.toNat ∧ c.toNat ≤ 57 := by
    simpa [Char.isDigit, UInt32.le_iff_toNat_le] using h
  simp only [isSpace, decide_eq_false_iff_not]
  omega

private theorem trim_of_isDigit {digits : List Char} (h : ∀ c ∈ digits, c.isDigit = true) : trim digits = digits := by
  have hinside : ∀ c ∈ digits, isSpace c = false := fun c hc => isSpace_of_isDigit (h c hc)
  have htrim : trim ([] ++ digits ++ []) = digits := trim_append (by simp) hinside (by simp)
  rwa [List.nil_append, List.append_nil] at htrim

private theorem read?_of_isDigit {bound : Nat} {digits : List Char} (h : ∀ c ∈ digits, c.isDigit = true)
    (hne : digits ≠ []) (hlt : Nat.ofDigitChars 10 digits 0 < bound) :
    read? bound digits = some (Nat.ofDigitChars 10 digits 0) := by
  have hsign : ∀ rest, digits ≠ '+' :: rest := by
    rintro rest rfl
    exact absurd (h '+' List.mem_cons_self) (by decide)
  rw [read?, if_neg hne, digits?_of_isDigit h]
  · simp only [if_pos hlt]
  · exact hsign

theorem read?_format (code digits : UInt32) :
    read? (2 ^ 32) (trim (CodeSettings.format code digits).toList) = some code.toNat := by
  simp only [CodeSettings.format, String.toList_ofList]
  generalize digits.toNat - (Nat.toDigits 10 code.toNat).length = zeros
  have hdigits : ∀ c ∈ List.replicate zeros '0' ++ Nat.toDigits 10 code.toNat, c.isDigit = true := by
    intro c hc
    rcases List.mem_append.mp hc with hc | hc
    · rw [List.eq_of_mem_replicate hc]
      decide
    · exact Nat.isDigit_of_mem_toDigits (by decide) (by decide) hc
  have hvalue : Nat.ofDigitChars 10 (List.replicate zeros '0' ++ Nat.toDigits 10 code.toNat) 0 = code.toNat := by
    rw [Nat.ofDigitChars_append, Nat.ofDigitChars_replicate_zero, Nat.mul_zero,
      Nat.ofDigitChars_toDigits (by decide) (by decide)]
  have hne : List.replicate zeros '0' ++ Nat.toDigits 10 code.toNat ≠ [] := by
    simp [Nat.toDigits_ne_nil]
  rw [trim_of_isDigit hdigits, read?_of_isDigit hdigits hne (by rw [hvalue]; exact code.toNat_lt), hvalue]

end NumberText
end FieldLink
