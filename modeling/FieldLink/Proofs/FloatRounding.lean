import FieldLink.BinaryFloat
import Mathlib.Data.Nat.Log
import Mathlib.Tactic.Ring

/-!
# Rounding to a value of a format

Rounding depends on a quotient alone, and a quotient that is a value of the format is rounded to that value. So
a wider format has every value of a narrower one, and comes back from it unchanged.
-/

namespace FieldLink

private theorem nearestInteger_mul_right (n d : Nat) {k : Nat} (hk : 0 < k) :
    nearestInteger (n * k) (d * k) = nearestInteger n d := by
  have hlow : n * k / (d * k) = n / d := Nat.mul_div_mul_right n d hk
  have htwice : 2 * (n * k % (d * k)) = 2 * (n % d) * k := by
    rw [Nat.mul_mod_mul_right, Nat.mul_assoc]
  have hlt : 2 * (n % d) * k < d * k ↔ 2 * (n % d) < d := Nat.mul_lt_mul_right hk
  have heq : 2 * (n % d) * k = d * k ↔ 2 * (n % d) = d := Nat.mul_left_inj (by omega)
  simp only [nearestInteger, hlow, htwice, hlt, heq]

private theorem nearestInteger_mul_self (m : Nat) {d : Nat} (hd : 0 < d) : nearestInteger (m * d) d = m := by
  have hlow : m * d / d = m := Nat.mul_div_cancel m hd
  have hrest : m * d % d = 0 := Nat.mul_mod_left m d
  simp only [nearestInteger, hlow, hrest, Nat.mul_zero, if_pos (Or.inl hd)]

namespace FloatFormat

variable {f : FloatFormat}

private theorem nearest_mul_right (n d : Nat) {k : Nat} (hk : 0 < k) :
    f.nearest (n * k) (d * k) = f.nearest n d := by
  have hnumerator : n * k * 2 ^ f.scale = n * 2 ^ f.scale * k := Nat.mul_right_comm _ _ _
  simp only [nearest]
  rw [hnumerator, Nat.mul_div_mul_right _ _ hk, Nat.mul_right_comm d k, nearestInteger_mul_right _ _ hk]

theorem nearest_congr {a b c d : Nat} (hb : 0 < b) (hd : 0 < d) (h : a * d = c * b) :
    f.nearest a b = f.nearest c d := by
  calc
    f.nearest a b = f.nearest (a * d) (b * d) := (nearest_mul_right a b hd).symm
    _ = f.nearest (c * b) (d * b) := by rw [h, Nat.mul_comm b d]
    _ = f.nearest c d := nearest_mul_right c d hb

theorem units_of_lt {index : Nat} (h : index < 2 ^ f.fractionBits) : f.units index = index := by
  simp only [units, Nat.div_eq_of_lt h, if_true]

theorem units_normal (exponent : Nat) {fraction : Nat} (h : fraction < 2 ^ f.fractionBits) :
    f.units ((exponent + 1) * 2 ^ f.fractionBits + fraction) =
      (2 ^ f.fractionBits + fraction) * 2 ^ exponent := by
  have hpos : 0 < 2 ^ f.fractionBits := Nat.two_pow_pos _
  have hdiv : ((exponent + 1) * 2 ^ f.fractionBits + fraction) / 2 ^ f.fractionBits = exponent + 1 := by
    rw [Nat.add_comm, Nat.add_mul_div_right _ _ hpos, Nat.div_eq_of_lt h, Nat.zero_add]
  have hmod : ((exponent + 1) * 2 ^ f.fractionBits + fraction) % 2 ^ f.fractionBits = fraction := by
    rw [Nat.add_comm, Nat.add_mul_mod_self_right, Nat.mod_eq_of_lt h]
  simp only [units, hdiv, hmod, if_neg (Nat.succ_ne_zero exponent), Nat.add_sub_cancel]

theorem index_cases (f : FloatFormat) (index : Nat) :
    index < 2 ^ f.fractionBits ∨ ∃ exponent fraction, fraction < 2 ^ f.fractionBits ∧
      index = (exponent + 1) * 2 ^ f.fractionBits + fraction := by
  have hpos : 0 < 2 ^ f.fractionBits := Nat.two_pow_pos _
  rcases Nat.lt_or_ge index (2 ^ f.fractionBits) with h | h
  · exact Or.inl h
  · refine Or.inr ⟨index / 2 ^ f.fractionBits - 1, index % 2 ^ f.fractionBits, Nat.mod_lt _ hpos, ?_⟩
    have hquotient : 0 < index / 2 ^ f.fractionBits := Nat.div_pos h hpos
    rw [Nat.sub_add_cancel hquotient, Nat.mul_comm, Nat.div_add_mod]

private theorem log2_significand (exponent : Nat) {fraction : Nat} (h : fraction < 2 ^ f.fractionBits) :
    Nat.log2 ((2 ^ f.fractionBits + fraction) * 2 ^ exponent) = f.fractionBits + exponent := by
  have hone : 0 < 2 ^ f.fractionBits := Nat.two_pow_pos _
  have hpos : 0 < 2 ^ exponent := Nat.two_pow_pos _
  rw [Nat.log2_eq_iff (Nat.mul_ne_zero (by omega) (by omega))]
  constructor
  · rw [Nat.pow_add]
    exact Nat.mul_le_mul_right _ (Nat.le_add_right _ _)
  · calc
      (2 ^ f.fractionBits + fraction) * 2 ^ exponent
        < (2 ^ f.fractionBits + 2 ^ f.fractionBits) * 2 ^ exponent :=
          Nat.mul_lt_mul_of_pos_right (by omega) hpos
      _ = 2 ^ (f.fractionBits + exponent + 1) := by ring

private theorem nearest_exact {n d index : Nat} (hd : 0 < d) (h : n * 2 ^ f.scale = f.units index * d) :
    f.nearest n d = index := by
  simp only [nearest, h, Nat.mul_div_cancel _ hd]
  -- The bits that rounding drops are those by which the exponent shifts the significand: all zeros.
  rcases f.index_cases index with hsub | ⟨exponent, fraction, hfraction, rfl⟩
  · have hdrop : Nat.log2 index - f.fractionBits = 0 := by
      rcases Nat.eq_zero_or_pos index with rfl | hpos
      · simp
      · have := (Nat.log2_lt (by omega)).mpr hsub
        omega
    rw [units_of_lt hsub, hdrop, Nat.zero_mul, Nat.zero_add, Nat.pow_zero, Nat.mul_one,
      nearestInteger_mul_self index hd]
  · have hdivided : (2 ^ f.fractionBits + fraction) * 2 ^ exponent * d =
        (2 ^ f.fractionBits + fraction) * (d * 2 ^ exponent) := by ring
    rw [units_normal exponent hfraction, log2_significand exponent hfraction, Nat.add_sub_cancel_left,
      hdivided, nearestInteger_mul_self _ (Nat.mul_pos hd (Nat.two_pow_pos _))]
    ring

/-- A number with no more significant bits than the format has is a value of it. -/
theorem exists_units (f : FloatFormat) {a : Nat} (k : Nat) (ha : a < 2 ^ (f.fractionBits + 1)) :
    ∃ index, index ≤ k * 2 ^ f.fractionBits + a ∧ f.units index = a * 2 ^ k := by
  induction k generalizing a with
  | zero =>
    refine ⟨a, by omega, ?_⟩
    rcases Nat.lt_or_ge a (2 ^ f.fractionBits) with h | h
    · rw [units_of_lt h, Nat.pow_zero, Nat.mul_one]
    · obtain ⟨r, rfl⟩ := Nat.exists_eq_add_of_le h
      have hr : r < 2 ^ f.fractionBits := by
        rw [Nat.pow_succ] at ha
        omega
      have hnormal := units_normal 0 hr
      rw [Nat.zero_add, Nat.one_mul] at hnormal
      exact hnormal
  | succ k ih =>
    -- A significand that is too short takes one of the factors two; one that is not is left alone.
    rcases Nat.lt_or_ge a (2 ^ f.fractionBits) with h | h
    · obtain ⟨index, hle, hunits⟩ := ih (a := 2 * a) (by rw [Nat.pow_succ]; omega)
      refine ⟨index, ?_, ?_⟩
      · have hsplit : (k + 1) * 2 ^ f.fractionBits = k * 2 ^ f.fractionBits + 2 ^ f.fractionBits :=
          Nat.succ_mul _ _
        omega
      · rw [hunits]
        ring
    · obtain ⟨r, rfl⟩ := Nat.exists_eq_add_of_le h
      refine ⟨(k + 1) * 2 ^ f.fractionBits + (2 ^ f.fractionBits + r), Nat.le_refl _, ?_⟩
      have hplace : (k + 1) * 2 ^ f.fractionBits + (2 ^ f.fractionBits + r) =
          (k + 1 + 1) * 2 ^ f.fractionBits + r := by ring
      rw [hplace]
      exact units_normal (k + 1) (by rw [Nat.pow_succ] at ha; omega)

/-- Every finite value has no more significant bits than the format has. -/
theorem exists_significand {index exponents : Nat} (h : index < (exponents + 1) * 2 ^ f.fractionBits) :
    ∃ a k, a < 2 ^ (f.fractionBits + 1) ∧ k < max 1 exponents ∧ f.units index = a * 2 ^ k := by
  rcases f.index_cases index with hsub | ⟨exponent, fraction, hfraction, rfl⟩
  · refine ⟨index, 0, ?_, by omega, ?_⟩
    · rw [Nat.pow_succ]
      omega
    · rw [units_of_lt hsub, Nat.pow_zero, Nat.mul_one]
  · refine ⟨2 ^ f.fractionBits + fraction, exponent, ?_, ?_, units_normal exponent hfraction⟩
    · rw [Nat.pow_succ]
      omega
    · have hlt : (exponent + 1) * 2 ^ f.fractionBits < (exponents + 1) * 2 ^ f.fractionBits := by omega
      have := Nat.lt_of_mul_lt_mul_right hlt
      omega

theorem units_ne_zero {index : Nat} (h : index ≠ 0) : f.units index ≠ 0 := by
  rcases f.index_cases index with hsub | ⟨exponent, fraction, hfraction, rfl⟩
  · rw [units_of_lt hsub]
    exact h
  · have hone : 0 < 2 ^ f.fractionBits := Nat.two_pow_pos _
    have hpos : 0 < 2 ^ exponent := Nat.two_pow_pos _
    rw [units_normal exponent hfraction]
    exact Nat.mul_ne_zero (by omega) (by omega)

private theorem infinity_lt_signWeight (f : FloatFormat) : f.infinity < f.signWeight := by
  have hexponents : 2 ^ f.exponentBits - 1 < 2 ^ f.exponentBits := Nat.sub_lt (Nat.two_pow_pos _) Nat.one_pos
  rw [infinity, signWeight, Nat.pow_add]
  exact Nat.mul_lt_mul_of_pos_right hexponents (Nat.two_pow_pos _)

end FloatFormat

namespace FloatValue

variable {f : FloatFormat}

@[simp] theorem ofIndex_index (x : FiniteFloat f) : ofIndex f x.negative x.index = finite x := by
  rw [ofIndex, dif_pos x.index_lt]

theorem round_exact {x : FiniteFloat f} {n d : Nat} (hd : 0 < d)
    (h : n * 2 ^ f.scale = f.units x.index * d) : round f x.negative n d = finite x := by
  rw [round, FloatFormat.nearest_exact hd h, Nat.min_eq_left (Nat.le_of_lt x.index_lt), ofIndex_index]

@[simp] theorem ofBits_toBits (x : FiniteFloat f) : ofBits f x.toBits = finite x := by
  have hlt : x.index < f.signWeight := Nat.lt_trans x.index_lt f.infinity_lt_signWeight
  have hindex : x.toBits % f.signWeight = x.index := by
    cases hsign : x.negative with
    | true =>
      rw [FiniteFloat.toBits, hsign, if_pos rfl, Nat.add_mod_left, Nat.mod_eq_of_lt hlt]
    | false => simp [FiniteFloat.toBits, hsign, Nat.mod_eq_of_lt hlt]
  have hnegative : decide (f.signWeight ≤ x.toBits) = x.negative := by
    cases hsign : x.negative with
    | true => simp [FiniteFloat.toBits, hsign]
    | false => simpa [FiniteFloat.toBits, hsign] using hlt
  rw [ofBits, hindex, hnegative, ofIndex_index]

/-- A finite value is a value of every wider format, and comes back from it unchanged. -/
theorem convert_wider {g : FloatFormat} (x : FiniteFloat f) (exponents shift : Nat)
    (hexponents : f.infinity = (exponents + 1) * 2 ^ f.fractionBits)
    (hfraction : f.fractionBits ≤ g.fractionBits) (hscale : g.scale = f.scale + shift)
    (hrange : (max 1 exponents + shift + 1) * 2 ^ g.fractionBits ≤ g.infinity) :
    ∃ y : FiniteFloat g, convert g (finite x) = finite y ∧ y.exactly? f = some x := by
  obtain ⟨a, k, ha, hk, hnarrow⟩ :=
    FloatFormat.exists_significand (Nat.lt_of_lt_of_eq x.index_lt hexponents)
  have hwide : a < 2 ^ (g.fractionBits + 1) :=
    Nat.lt_of_lt_of_le ha (Nat.pow_le_pow_right (by decide) (by omega))
  obtain ⟨index, hle, hunits⟩ := g.exists_units (k + shift) hwide
  have hlt : index < g.infinity := by
    calc
      index ≤ (k + shift) * 2 ^ g.fractionBits + a := hle
      _ < (k + shift) * 2 ^ g.fractionBits + 2 ^ (g.fractionBits + 1) := by omega
      _ = (k + 1 + shift + 1) * 2 ^ g.fractionBits := by ring
      _ ≤ (max 1 exponents + shift + 1) * 2 ^ g.fractionBits := Nat.mul_le_mul_right _ (by omega)
      _ ≤ g.infinity := hrange
  have hshifted : g.units index = f.units x.index * 2 ^ shift := by
    rw [hunits, hnarrow]
    ring
  let y : FiniteFloat g := ⟨x.negative, index, hlt⟩
  have hconvert : convert g (finite x) = finite y := by
    refine round_exact (x := y) (Nat.two_pow_pos _) ?_
    rw [hshifted, hscale]
    ring
  have hback : convert f (finite y) = finite x := by
    refine round_exact (x := x) (Nat.two_pow_pos _) ?_
    rw [hshifted, hscale]
    ring
  refine ⟨y, hconvert, ?_⟩
  rw [FiniteFloat.exactly?, hback]
  simp [finite?, hconvert]

theorem convert_single (x : Single) :
    ∃ y : Double, convert .double (finite x) = finite y ∧ y.exactly? .single = some x :=
  convert_wider x 254 925 (by decide) (by decide) (by decide) (by decide)

end FloatValue

theorem FiniteFloat.toBits_lt {f : FloatFormat} (x : FiniteFloat f) : x.toBits < 2 * f.signWeight := by
  have hlt : x.index < f.signWeight := Nat.lt_trans x.index_lt f.infinity_lt_signWeight
  rw [toBits]
  split <;> omega

theorem FiniteFloat.convert_of_exactly? {f g : FloatFormat} {x : FiniteFloat f} {y : FiniteFloat g}
    (h : x.exactly? g = some y) : FloatValue.convert f (.finite y) = .finite x := by
  rw [exactly?, Option.bind_eq_bind, Option.bind_eq_some_iff] at h
  obtain ⟨z, -, hz⟩ := h
  split at hz
  · next hvalue =>
    cases hz
    exact hvalue
  · cases hz

end FieldLink
