import FieldLink.Proofs.FloatRounding
import Mathlib.Order.WellFounded

/-!
# Where one finite value stops being the nearest and the next one begins

At the midpoint between the two, which itself goes to the even one. All that follows about rounding twice is
read off this one equivalence.
-/

namespace FieldLink

theorem nearestInteger_le_iff {n d : Nat} (hd : 0 < d) (k : Nat) :
    nearestInteger n d ≤ k ↔ 2 * n < (2 * k + 1) * d ∨ 2 * n = (2 * k + 1) * d ∧ k % 2 = 0 := by
  have hsplit : 2 * n = 2 * (n / d) * d + 2 * (n % d) := by
    have := Nat.div_add_mod n d
    rw [Nat.mul_comm d] at this
    rw [Nat.mul_assoc]
    omega
  have hrest := Nat.mod_lt n hd
  simp only [nearestInteger, hsplit]
  generalize n / d = q at *
  generalize n % d = r at *
  rcases Nat.lt_trichotomy k q with hk | rfl | hk
  · have hle : (2 * k + 1) * d + d ≤ 2 * q * d := by
      rw [← Nat.succ_mul]
      exact Nat.mul_le_mul_right d (by omega)
    split <;> omega
  · have hodd : (2 * k + 1) * d = 2 * k * d + d := Nat.succ_mul _ _
    split <;> omega
  · have hle : 2 * q * d + 2 * d + d ≤ (2 * k + 1) * d := by
      rw [← Nat.add_mul, ← Nat.succ_mul]
      exact Nat.mul_le_mul_right d (by omega)
    split <;> omega

private theorem nearestInteger_le_of_lt {n d m : Nat} (hd : 0 < d) (h : n < m * d) : nearestInteger n d ≤ m := by
  have hodd : (2 * m + 1) * d = 2 * (m * d) + d := by rw [Nat.succ_mul, Nat.mul_assoc]
  rw [nearestInteger_le_iff hd, hodd]
  omega

private theorem le_nearestInteger_of_le {n d m : Nat} (hd : 0 < d) (h : m * d ≤ n) : m ≤ nearestInteger n d := by
  cases m with
  | zero => exact Nat.zero_le _
  | succ m =>
    have hodd : (2 * m + 1) * d = 2 * (m * d) + d := by rw [Nat.succ_mul, Nat.mul_assoc]
    by_contra hlt
    rw [Nat.not_le, Nat.lt_succ_iff, nearestInteger_le_iff hd, hodd] at hlt
    rw [Nat.succ_mul] at h
    omega

namespace FloatFormat

variable {f : FloatFormat}

/-- The number of a finite value, made of an exponent and a significand, which is short for the least exponent
alone. -/
structure Shape (f : FloatFormat) (index exponent significand : Nat) : Prop where
  eq : index = exponent * 2 ^ f.fractionBits + significand
  full : exponent = 0 ∨ 2 ^ f.fractionBits ≤ significand
  lt : significand < 2 ^ (f.fractionBits + 1)

theorem exists_shape (f : FloatFormat) (index : Nat) : ∃ exponent significand, f.Shape index exponent significand := by
  have hdouble : 2 ^ (f.fractionBits + 1) = 2 * 2 ^ f.fractionBits := Nat.pow_succ'
  rcases f.index_cases index with hsub | ⟨exponent, fraction, hfraction, rfl⟩
  · exact ⟨0, index, by omega, .inl rfl, by omega⟩
  · refine ⟨exponent, 2 ^ f.fractionBits + fraction, ?_, .inr (Nat.le_add_right _ _), by omega⟩
    rw [Nat.succ_mul, Nat.add_assoc]

/-- The value of an exponent and a significand. A significand of one bit too many is the first one of the next
exponent, and its value is the same. -/
theorem units_eq {exponent significand : Nat} (hfull : exponent = 0 ∨ 2 ^ f.fractionBits ≤ significand)
    (hle : significand ≤ 2 ^ (f.fractionBits + 1)) :
    f.units (exponent * 2 ^ f.fractionBits + significand) = significand * 2 ^ exponent := by
  have hdouble : 2 ^ (f.fractionBits + 1) = 2 * 2 ^ f.fractionBits := Nat.pow_succ'
  rcases Nat.lt_or_ge significand (2 ^ f.fractionBits) with hshort | hlong
  · obtain rfl : exponent = 0 := by omega
    rw [Nat.zero_mul, Nat.zero_add, units_of_lt hshort, Nat.pow_zero, Nat.mul_one]
  · obtain ⟨fraction, rfl⟩ := Nat.exists_eq_add_of_le hlong
    have hindex : exponent * 2 ^ f.fractionBits + (2 ^ f.fractionBits + fraction) =
        (exponent + 1) * 2 ^ f.fractionBits + fraction := by ring
    rw [hindex]
    rcases Nat.lt_or_ge fraction (2 ^ f.fractionBits) with hfraction | hnext
    · exact units_normal exponent hfraction
    · obtain rfl : fraction = 2 ^ f.fractionBits := by omega
      have hcarry : (exponent + 1) * 2 ^ f.fractionBits + 2 ^ f.fractionBits =
          (exponent + 1 + 1) * 2 ^ f.fractionBits + 0 := by ring
      rw [hcarry, units_normal (exponent + 1) (Nat.two_pow_pos _)]
      ring

namespace Shape

variable {index exponent significand : Nat} (h : f.Shape index exponent significand)
include h

theorem units : f.units index = significand * 2 ^ exponent := by
  rw [h.eq]
  exact units_eq h.full (Nat.le_of_lt h.lt)

theorem units_succ : f.units (index + 1) = (significand + 1) * 2 ^ exponent := by
  rw [h.eq, Nat.add_assoc]
  refine units_eq ?_ h.lt
  rcases h.full with hzero | hfull
  · exact .inl hzero
  · exact .inr (Nat.le_succ_of_le hfull)

end Shape

theorem units_strictMono (f : FloatFormat) : StrictMono f.units := by
  refine strictMono_nat_of_lt_succ fun index => ?_
  obtain ⟨exponent, significand, h⟩ := f.exists_shape index
  rw [h.units, h.units_succ]
  exact Nat.mul_lt_mul_of_pos_right (Nat.lt_succ_self _) (Nat.two_pow_pos _)

private theorem units_succ_le {index gap : Nat} (h : f.units index < 2 ^ (f.fractionBits + 1 + gap)) :
    f.units (index + 1) ≤ f.units index + 2 ^ gap := by
  obtain ⟨exponent, significand, hshape⟩ := f.exists_shape index
  rw [hshape.units] at h ⊢
  rw [hshape.units_succ, Nat.succ_mul]
  refine Nat.add_le_add_left (Nat.pow_le_pow_right (by decide) ?_) _
  rcases hshape.full with rfl | hfull
  · exact Nat.zero_le _
  · have hlt : 2 ^ (f.fractionBits + exponent) < 2 ^ (f.fractionBits + 1 + gap) := by
      rw [Nat.pow_add]
      exact Nat.lt_of_le_of_lt (Nat.mul_le_mul_right _ hfull) h
    have := (Nat.pow_lt_pow_iff_right (by decide)).mp hlt
    omega

/-- The midpoint between a finite value and the next one, in halves of the least positive value. -/
def midpoint (f : FloatFormat) (index : Nat) : Nat := f.units index + f.units (index + 1)

theorem Shape.midpoint {index exponent significand : Nat} (h : f.Shape index exponent significand) :
    f.midpoint index = (2 * significand + 1) * 2 ^ exponent := by
  rw [FloatFormat.midpoint, h.units, h.units_succ]
  ring

private theorem midpoint_lt (f : FloatFormat) {k m : Nat} (h : k < m) : f.midpoint k < 2 * f.units m := by
  have hstep := f.units_strictMono (Nat.lt_succ_self k)
  have hle := f.units_strictMono.monotone h
  rw [midpoint]
  simp only [Nat.succ_eq_add_one] at hstep hle
  omega

private theorem lt_midpoint (f : FloatFormat) (k : Nat) : 2 * f.units k < f.midpoint k := by
  have hstep := f.units_strictMono (Nat.lt_succ_self k)
  rw [midpoint]
  simp only [Nat.succ_eq_add_one] at hstep
  omega

private theorem midpoint_mul_lt (f : FloatFormat) {x d k m : Nat} (hd : 0 < d) (h : f.units m * d ≤ x) (hk : k < m) :
    f.midpoint k * d < 2 * x := by
  calc
    f.midpoint k * d < 2 * f.units m * d := Nat.mul_lt_mul_of_pos_right (f.midpoint_lt hk) hd
    _ = 2 * (f.units m * d) := Nat.mul_assoc _ _ _
    _ ≤ 2 * x := Nat.mul_le_mul_left 2 h

private theorem lt_midpoint_mul (f : FloatFormat) {x d k m : Nat} (h : x < f.units m * d) (hk : m ≤ k) :
    2 * x < f.midpoint k * d := by
  calc
    2 * x < 2 * (f.units m * d) := by omega
    _ = 2 * f.units m * d := (Nat.mul_assoc _ _ _).symm
    _ ≤ 2 * f.units k * d := Nat.mul_le_mul_right d (Nat.mul_le_mul_left 2 (f.units_strictMono.monotone hk))
    _ ≤ f.midpoint k * d := Nat.mul_le_mul_right d (Nat.le_of_lt (f.lt_midpoint k))

private theorem nearestInteger_le_iff_midpoint {x d : Nat} (hd : 0 < d) (hx : x < 2 ^ (f.fractionBits + 1) * d)
    (k : Nat) : nearestInteger x d ≤ k ↔ 2 * x < f.midpoint k * d ∨ 2 * x = f.midpoint k * d ∧ k % 2 = 0 := by
  have hlast : f.units (0 * 2 ^ f.fractionBits + 2 ^ (f.fractionBits + 1)) = 2 ^ (f.fractionBits + 1) * 2 ^ 0 :=
    units_eq (.inl rfl) (Nat.le_refl _)
  rw [Nat.zero_mul, Nat.zero_add, Nat.pow_zero, Nat.mul_one] at hlast
  rcases Nat.lt_or_ge k (2 ^ (f.fractionBits + 1)) with hk | hk
  · have hshape : f.Shape k 0 k := ⟨by omega, .inl rfl, hk⟩
    rw [nearestInteger_le_iff hd, hshape.midpoint, Nat.pow_zero, Nat.mul_one]
  · exact iff_of_true (Nat.le_trans (nearestInteger_le_of_lt hd hx) hk)
      (.inl (f.lt_midpoint_mul (by rwa [hlast]) hk))

private theorem add_nearestInteger_le_iff_midpoint (hf : 0 < f.fractionBits) {x d drop : Nat} (hd : 0 < d)
    (hleast : 2 ^ (f.fractionBits + drop) * d ≤ x) (hmost : x < 2 ^ (f.fractionBits + drop + 1) * d) (k : Nat) :
    drop * 2 ^ f.fractionBits + nearestInteger x (d * 2 ^ drop) ≤ k ↔
      2 * x < f.midpoint k * d ∨ 2 * x = f.midpoint k * d ∧ k % 2 = 0 := by
  have hdouble : 2 ^ (f.fractionBits + 1) = 2 * 2 ^ f.fractionBits := Nat.pow_succ'
  have hone := Nat.two_pow_pos f.fractionBits
  have hscaled : 0 < d * 2 ^ drop := Nat.mul_pos hd (Nat.two_pow_pos _)
  have hfirst : f.units (drop * 2 ^ f.fractionBits + 2 ^ f.fractionBits) = 2 ^ (f.fractionBits + drop) := by
    rw [units_eq (.inr (Nat.le_refl _)) (by omega), Nat.pow_add]
  have hlast : f.units (drop * 2 ^ f.fractionBits + 2 ^ (f.fractionBits + 1)) =
      2 ^ (f.fractionBits + drop + 1) := by
    rw [units_eq (.inr (by omega)) (Nat.le_refl _)]
    ring
  rcases Nat.lt_or_ge k (drop * 2 ^ f.fractionBits + 2 ^ f.fractionBits) with hk | hk
  · have hrounded : 2 ^ f.fractionBits ≤ nearestInteger x (d * 2 ^ drop) := by
      refine le_nearestInteger_of_le hscaled (Nat.le_trans (Nat.le_of_eq ?_) hleast)
      rw [Nat.pow_add]
      ring
    have hmid : f.midpoint k * d < 2 * x := f.midpoint_mul_lt hd (by rwa [hfirst]) hk
    refine iff_of_false ?_ ?_
    · omega
    · omega
  · obtain ⟨significand, rfl⟩ : ∃ significand, k = drop * 2 ^ f.fractionBits + significand :=
      ⟨k - drop * 2 ^ f.fractionBits, by omega⟩
    rw [Nat.add_le_add_iff_left]
    rcases Nat.lt_or_ge significand (2 ^ (f.fractionBits + 1)) with hlt | hge
    · have hshape : f.Shape (drop * 2 ^ f.fractionBits + significand) drop significand :=
        ⟨rfl, .inr (by omega), hlt⟩
      have hparity : (drop * 2 ^ f.fractionBits + significand) % 2 = significand % 2 := by
        obtain ⟨bits, hbits⟩ := Nat.exists_eq_add_of_lt hf
        have heven : drop * 2 ^ f.fractionBits = 2 * (drop * 2 ^ bits) := by
          rw [hbits, Nat.zero_add, Nat.pow_succ]
          ring
        omega
      have hmidpoint : (2 * significand + 1) * (d * 2 ^ drop) = (2 * significand + 1) * 2 ^ drop * d := by ring
      rw [nearestInteger_le_iff hscaled, hshape.midpoint, hparity, hmidpoint]
    · have hrounded : nearestInteger x (d * 2 ^ drop) ≤ 2 ^ (f.fractionBits + 1) := by
        refine nearestInteger_le_of_lt hscaled (Nat.lt_of_lt_of_eq hmost ?_)
        rw [hdouble, Nat.pow_succ, Nat.pow_add]
        ring
      exact iff_of_true (Nat.le_trans hrounded hge)
        (.inl (f.lt_midpoint_mul (by rwa [hlast]) (Nat.add_le_add_left hge _)))

/-- The nearest value is at most the one numbered `k` below the midpoint above it, and at the midpoint if `k` is
even. -/
theorem nearest_le_iff (hf : 0 < f.fractionBits) (n : Nat) {d : Nat} (hd : 0 < d) (k : Nat) :
    f.nearest n d ≤ k ↔ 2 * (n * 2 ^ f.scale) < f.midpoint k * d ∨
      2 * (n * 2 ^ f.scale) = f.midpoint k * d ∧ k % 2 = 0 := by
  simp only [nearest]
  generalize n * 2 ^ f.scale = x
  have hone := Nat.two_pow_pos f.fractionBits
  have hdouble : 2 ^ (f.fractionBits + 1) = 2 * 2 ^ f.fractionBits := Nat.pow_succ'
  rcases Nat.lt_or_ge (x / d) (2 ^ (f.fractionBits + 1)) with hshort | hlong
  · have hdrop : Nat.log2 (x / d) - f.fractionBits = 0 := by
      rcases Nat.eq_zero_or_pos (x / d) with hzero | hpos
      · rw [hzero]
        simp
      · have := (Nat.log2_lt (by omega)).mpr hshort
        omega
    rw [hdrop, Nat.zero_mul, Nat.zero_add, Nat.pow_zero, Nat.mul_one]
    exact nearestInteger_le_iff_midpoint hd ((Nat.div_lt_iff_lt_mul hd).mp hshort) k
  · have hne : x / d ≠ 0 := by omega
    obtain ⟨drop, hlog⟩ : ∃ drop, Nat.log2 (x / d) = f.fractionBits + drop := by
      have : ¬Nat.log2 (x / d) < f.fractionBits := by
        intro hlt
        have := (Nat.log2_lt hne).mp hlt
        omega
      exact ⟨Nat.log2 (x / d) - f.fractionBits, by omega⟩
    obtain ⟨hlower, hupper⟩ := (Nat.log2_eq_iff hne).mp hlog
    rw [hlog, Nat.add_sub_cancel_left]
    exact add_nearestInteger_le_iff_midpoint hf hd ((Nat.le_div_iff_mul_le hd).mp hlower)
      ((Nat.div_lt_iff_lt_mul hd).mp hupper) k

theorem nearest_le_of_le_units (hf : 0 < f.fractionBits) {n d m : Nat} (hd : 0 < d)
    (h : n * 2 ^ f.scale ≤ f.units m * d) : f.nearest n d ≤ m := by
  have hmid := Nat.mul_lt_mul_of_pos_right (f.lt_midpoint m) hd
  rw [Nat.mul_assoc] at hmid
  rw [nearest_le_iff hf n hd]
  omega

theorem le_nearest_of_units_le (hf : 0 < f.fractionBits) {n d m : Nat} (hd : 0 < d)
    (h : f.units m * d ≤ n * 2 ^ f.scale) : m ≤ f.nearest n d := by
  cases m with
  | zero => exact Nat.zero_le _
  | succ m =>
    by_contra hlt
    rw [Nat.not_le, Nat.lt_succ_iff, nearest_le_iff hf n hd] at hlt
    have hmid := f.midpoint_mul_lt hd h (Nat.lt_succ_self m)
    omega

/-- A quotient is no further from the nearest value than half a step of a significand of its size. -/
theorem nearest_error (hf : 0 < f.fractionBits) {n d m gap : Nat} (hd : 0 < d) (hm : f.nearest n d = m)
    (hpos : 0 < m) (hgap : f.units m < 2 ^ (f.fractionBits + 1 + gap)) :
    2 * (n * 2 ^ f.scale) ≤ (2 * f.units m + 2 ^ gap) * d ∧
      2 * f.units m * d ≤ 2 * (n * 2 ^ f.scale) + 2 ^ gap * d := by
  constructor
  · have hmid : f.midpoint m ≤ 2 * f.units m + 2 ^ gap := by
      have := units_succ_le hgap
      rw [midpoint]
      omega
    have hle := (nearest_le_iff hf n hd m).mp (Nat.le_of_eq hm)
    have := Nat.mul_le_mul_right d hmid
    omega
  · obtain ⟨k, rfl⟩ : ∃ k, m = k + 1 := ⟨m - 1, by omega⟩
    have hstep := f.units_strictMono (Nat.lt_succ_self k)
    have hmid : 2 * f.units (k + 1) ≤ f.midpoint k + 2 ^ gap := by
      have := units_succ_le (Nat.lt_trans hstep hgap)
      rw [midpoint]
      omega
    have hlt : ¬f.nearest n d ≤ k := by omega
    rw [nearest_le_iff hf n hd] at hlt
    have := Nat.mul_le_mul_right d hmid
    rw [Nat.add_mul] at this
    omega

end FloatFormat
end FieldLink
