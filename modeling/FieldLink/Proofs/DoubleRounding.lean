import FieldLink.Proofs.DecimalRounding
import FieldLink.Proofs.NearMisses
import FieldLink.Proofs.RoundingThresholds

/-!
# Singles rounded through doubles

A single's shortest decimal, read as a double, is nearest to that single again. Rounding twice goes wrong only
where the double is a midpoint between singles and the decimal is not; then the decimal is a near miss, and
there is one single with such a decimal.
-/

namespace FieldLink

private theorem two_pow_eq_mul (a b c : Nat) (h : c = a + b) : 2 ^ c = 2 ^ a * 2 ^ b := by rw [h, Nat.pow_add]

namespace FloatFormat

/-- A midpoint between singles is a double. -/
theorem exists_double_midpoint {k exponent significand : Nat} (h : single.Shape k exponent significand)
    (hexponent : exponent ≤ 253) :
    ∃ m, double.units m = single.midpoint k * 2 ^ 924 ∧ 0 < m ∧ m < double.infinity := by
  have hsignificand : significand < 2 ^ 24 := h.lt
  have hwide : 2 * significand + 1 < 2 ^ (double.fractionBits + 1) := by
    have : 2 ^ (double.fractionBits + 1) = 2 ^ 53 := rfl
    omega
  obtain ⟨m, hle, hunits⟩ := double.exists_units (exponent + 924) hwide
  have hvalue : double.units m = single.midpoint k * 2 ^ 924 := by
    rw [hunits, h.midpoint, Nat.pow_add, Nat.mul_assoc]
  refine ⟨m, hvalue, ?_, ?_⟩
  · rcases Nat.eq_zero_or_pos m with rfl | hpos
    · have hzero : double.units 0 = 0 := by decide
      have hodd : 0 < (2 * significand + 1) * 2 ^ (exponent + 924) :=
        Nat.mul_pos (Nat.succ_pos _) (Nat.two_pow_pos _)
      omega
    · exact hpos
  · have hrange : double.infinity = 2047 * 2 ^ 52 := rfl
    have hbits : double.fractionBits = 52 := rfl
    rw [hbits] at hle
    have := Nat.mul_le_mul_right (2 ^ 52) (show exponent + 924 ≤ 1177 by omega)
    omega

private theorem Shape.exponent_le {index exponent significand : Nat} (h : single.Shape index exponent significand)
    (hindex : index < single.infinity) : exponent ≤ 253 := by
  have hrange : single.infinity = 255 * 2 ^ 23 := rfl
  have hbits : single.fractionBits = 23 := rfl
  have heq := h.eq
  have hfull := h.full
  rw [hbits] at heq hfull
  rcases hfull with rfl | hfull
  · exact Nat.zero_le _
  · by_contra hlt
    have := Nat.mul_le_mul_right (2 ^ 23) (show 254 ≤ exponent by omega)
    omega

private theorem two_mul_single_scale (n : Nat) : 2 * (n * 2 ^ single.scale) = n * 2 ^ 150 := by
  rw [Nat.mul_left_comm]
  rfl

private theorem mul_double_scale (n : Nat) : n * 2 ^ double.scale = n * 2 ^ 150 * 2 ^ 924 := by
  rw [two_pow_eq_mul 150 924 double.scale rfl, Nat.mul_assoc]

section Twice

variable {n d k m exponent significand : Nat} (hd : 0 < d) (h : single.Shape k exponent significand)
  (hm : double.units m = single.midpoint k * 2 ^ 924)

include hd h hm in
/-- A quotient that is rounded to a midpoint between singles is the midpoint or nearly misses it. -/
theorem nearMiss_of_nearest (hpos : 0 < m) (hnearest : double.nearest n d = m)
    (hne : 2 * (n * 2 ^ 149) ≠ single.midpoint k * d) :
    NearMiss (2 ^ 150) (2 ^ exponent * d) n (2 * significand + 1) := by
  have hsignificand : significand < 2 ^ 24 := h.lt
  -- All powers that occur are multiples of this one.
  obtain ⟨unit, hunit⟩ : ∃ unit, unit = 2 ^ 896 := ⟨_, rfl⟩
  have hcancel : 0 < unit := hunit ▸ Nat.two_pow_pos 896
  have hmidpoint : 2 ^ 924 = 2 ^ 28 * unit := by rw [hunit, two_pow_eq_mul 28 896 924 rfl]
  have hscale : 2 ^ double.scale = 2 ^ 178 * unit := by rw [hunit, two_pow_eq_mul 178 896 double.scale rfl]
  have hgrow : 2 ^ (exponent + 896) = 2 ^ exponent * unit := by rw [hunit, Nat.pow_add]
  have hunits : double.units m = (2 * significand + 1) * 2 ^ 28 * (2 ^ exponent * unit) := by
    rw [hm, h.midpoint, hmidpoint]
    ring
  have hbits : 2 ^ (double.fractionBits + 1) = 2 ^ 53 := rfl
  have hgap : double.units m < 2 ^ (double.fractionBits + 1 + (exponent + 896)) := by
    rw [hunits, Nat.pow_add 2 (double.fractionBits + 1), hbits, hgrow]
    refine Nat.mul_lt_mul_of_pos_right ?_ (Nat.mul_pos (Nat.two_pow_pos _) hcancel)
    omega
  obtain ⟨hupper, hlower⟩ := nearest_error (by decide) hd hnearest hpos hgap
  rw [hunits, hscale, hgrow] at hupper hlower
  refine ⟨?_, ?_, ?_⟩
  · refine Nat.le_of_mul_le_mul_right ?_ hcancel
    linarith only [hupper]
  · refine Nat.le_of_mul_le_mul_right ?_ hcancel
    linarith only [hlower]
  · intro heq
    apply hne
    rw [h.midpoint]
    linarith only [heq]

include hm in
theorem nearest_double_le_iff (j : Nat) :
    single.nearest (double.units j) (2 ^ double.scale) ≤ k ↔ j < m ∨ j = m ∧ k % 2 = 0 := by
  have hvalue : single.midpoint k * 2 ^ double.scale = double.units m * 2 ^ 150 := by
    rw [hm, mul_double_scale, Nat.mul_right_comm]
  have hlt : double.units j * 2 ^ 150 < double.units m * 2 ^ 150 ↔ j < m := by
    rw [Nat.mul_lt_mul_right (Nat.two_pow_pos _), double.units_strictMono.lt_iff_lt]
  have heq : double.units j * 2 ^ 150 = double.units m * 2 ^ 150 ↔ j = m := by
    rw [Nat.mul_left_inj (Nat.two_pow_pos _).ne', double.units_strictMono.injective.eq_iff]
  rw [nearest_le_iff (by decide) _ (Nat.two_pow_pos _), two_mul_single_scale, hvalue, hlt, heq]

include hd hm in
private theorem nearest_double_le (hle : single.nearest n d ≤ k) : double.nearest n d ≤ m := by
  rw [nearest_le_iff (by decide) n hd k, two_mul_single_scale] at hle
  have hbelow : n * 2 ^ 150 ≤ single.midpoint k * d := by omega
  refine nearest_le_of_le_units (by decide) hd ?_
  rw [hm, mul_double_scale, Nat.mul_right_comm (single.midpoint k)]
  exact Nat.mul_le_mul_right _ hbelow

include hd hm in
private theorem le_nearest_double (hlt : ¬single.nearest n d ≤ k) : m ≤ double.nearest n d := by
  rw [nearest_le_iff (by decide) n hd k, two_mul_single_scale] at hlt
  have habove : single.midpoint k * d ≤ n * 2 ^ 150 := by omega
  refine le_nearest_of_units_le (by decide) hd ?_
  rw [hm, mul_double_scale, Nat.mul_right_comm (single.midpoint k)]
  exact Nat.mul_le_mul_right _ habove

include hd h hm in
/-- Rounding through a double stops at a single just where direct rounding does, unless the quotient nearly misses
the midpoint above the single; then it stops if the single is even. -/
theorem nearest_twice_le_iff (hpos : 0 < m) :
    (single.nearest (double.units (double.nearest n d)) (2 ^ double.scale) ≤ k ↔ single.nearest n d ≤ k) ∨
      NearMiss (2 ^ 150) (2 ^ exponent * d) n (2 * significand + 1) ∧
        (single.nearest (double.units (double.nearest n d)) (2 ^ double.scale) ≤ k ↔ k % 2 = 0) := by
  rw [nearest_double_le_iff hm]
  rcases Nat.lt_trichotomy (double.nearest n d) m with hbelow | heq | habove
  · have hle : single.nearest n d ≤ k := by
      by_contra hlt
      exact absurd (le_nearest_double hd hm hlt) (Nat.not_le_of_lt hbelow)
    exact .inl (iff_of_true (.inl hbelow) hle)
  · by_cases hmid : 2 * (n * 2 ^ single.scale) = single.midpoint k * d
    · left
      rw [nearest_le_iff (by decide) n hd k]
      omega
    · exact .inr ⟨nearMiss_of_nearest hd h hm hpos heq hmid, by omega⟩
  · have hlt : ¬single.nearest n d ≤ k := fun hle =>
      absurd (nearest_double_le hd hm hle) (Nat.not_le_of_lt habove)
    left
    omega

end Twice
end FloatFormat

theorem FloatValue.index_of_ofIndex {f : FloatFormat} {negative : Bool} {index : Nat} {x : FiniteFloat f}
    (h : ofIndex f negative index = .finite x) : index = x.index := by
  rw [ofIndex] at h
  split at h
  · cases h
    rfl
  · split at h <;> cases h

/-- A decimal that is no further than one of its own steps from a quotient. -/
structure Decimal.IsWithinStep (c : Decimal) (n d : Nat) : Prop where
  upper : c.numerator * d ≤ n * c.denominator + 10 ^ c.exponent.toNat * d
  lower : n * c.denominator ≤ c.numerator * d + 10 ^ c.exponent.toNat * d

private theorem isWithinStep_of_mem_neighbours {tie : TieRule} {n d : Nat} {e : Int} {c : Decimal} (hd : 0 < d)
    (h : c ∈ neighbours tie n d e) : c.IsWithinStep n d := by
  have hstep : 0 < d * 10 ^ e.toNat := Nat.mul_pos hd (ten_pow_pos _)
  have hsplit := Nat.div_add_mod' (n * 10 ^ (-e).toNat) (d * 10 ^ e.toNat)
  have hrest := Nat.mod_lt (n * 10 ^ (-e).toNat) hstep
  have hcoefficient (a : Nat) : a * 10 ^ e.toNat * d = a * (d * 10 ^ e.toNat) := by ring
  have hnext (a : Nat) : (a + 1) * (d * 10 ^ e.toNat) = a * (d * 10 ^ e.toNat) + d * 10 ^ e.toNat := Nat.succ_mul ..
  have hunit : 10 ^ e.toNat * d = d * 10 ^ e.toNat := Nat.mul_comm ..
  simp only [neighbours] at h
  split at h
  all_goals
    simp only [List.mem_cons, List.not_mem_nil, or_false] at h
    rcases h with rfl | rfl
    all_goals
      constructor
      all_goals
        simp only [Decimal.numerator, Decimal.denominator, hcoefficient, hnext, hunit]
        omega

namespace FiniteFloat

variable {f : FloatFormat}

theorem exists_shortest (hf : 2 ≤ f.exponentBits) (tie : TieRule) {x : FiniteFloat f} (hx : x.index ≠ 0) :
    ∃ c : Decimal, x.shortest tie = c.strip ∧ Decimal.round f x.negative c = .finite x ∧
      c.IsWithinStep (f.units x.index) (2 ^ f.scale) := by
  rcases x.shortest_cases tie with hexact | ⟨more, c, -, hmem, hreads, hshortest⟩
  · refine ⟨x.exactDecimal, hexact, round_exactDecimal hf hx, ?_⟩
    have hup : (-(f.scale : Int)).toNat = 0 := by omega
    have hdown : (- -(f.scale : Int)).toNat = f.scale := by omega
    have hvalue : x.exactDecimal.numerator * 2 ^ f.scale = f.units x.index * x.exactDecimal.denominator := by
      simp only [exactDecimal, Decimal.numerator, Decimal.denominator, hup, hdown, Nat.pow_zero, Nat.mul_one]
      rw [Nat.mul_assoc, ← Nat.mul_pow]
    constructor <;> omega
  · exact ⟨c, hshortest, hreads, isWithinStep_of_mem_neighbours (Nat.two_pow_pos _) hmem⟩

end FiniteFloat

/-- The single that comes back as the next one: its shortest decimal, 7.038531e-26, is read as the double midway
between the two. -/
def FloatFormat.misreadSingle : Nat := 0x15AE43FD

/-- The two singles below the midpoints that some decimal nearly misses. -/
theorem FloatFormat.Shape.eq_of_isNearlyMissed {k exponent significand : Nat}
    (h : single.Shape k exponent significand) (hmiss : IsNearlyMissed exponent (2 * significand + 1)) :
    k = misreadSingle ∨ k = 0x162E43FD := by
  obtain ⟨hmidpoint, hexponent⟩ := hmiss
  have heq := h.eq
  obtain rfl : significand = 11420669 := by omega
  rcases hexponent with rfl | rfl
  · exact .inl heq
  · exact .inr heq

namespace Decimal

theorem denominator_pos (c : Decimal) : 0 < c.denominator := ten_pow_pos _

section ThroughDouble

variable {c : Decimal} {x : Single}
  (hclose : c.IsWithinStep (FloatFormat.single.units x.index) (2 ^ FloatFormat.single.scale))

include hclose in
theorem IsWithinStep.isNearlyMissed {k exponent significand : Nat}
    (h : FloatFormat.single.Shape k exponent significand) (hexponent : exponent ≤ 253)
    (hnext : x.index = k ∨ x.index = k + 1)
    (hmiss : NearMiss (2 ^ 150) (2 ^ exponent * c.denominator) c.numerator (2 * significand + 1)) :
    IsNearlyMissed exponent (2 * significand + 1) := by
  have hsignificand : significand < 2 ^ 24 := h.lt
  have hdouble : 2 * 2 ^ FloatFormat.single.scale = 2 ^ 150 := rfl
  have hnumerator : c.numerator * 2 ^ 150 = c.coefficient * DecimalGrid.numerator c.exponent := Nat.mul_assoc ..
  -- In halves of the least single: the decimal, its step, the single and the midpoint.
  have hupper : c.numerator * 2 ^ 150 ≤
      2 * (FloatFormat.single.units x.index * c.denominator) + DecimalGrid.numerator c.exponent := by
    have := Nat.mul_le_mul_left 2 hclose.upper
    rwa [Nat.mul_add, Nat.mul_left_comm, Nat.mul_left_comm 2 (10 ^ _), hdouble] at this
  have hlower : 2 * (FloatFormat.single.units x.index * c.denominator) ≤
      c.numerator * 2 ^ 150 + DecimalGrid.numerator c.exponent := by
    have := Nat.mul_le_mul_left 2 hclose.lower
    rwa [Nat.mul_add, Nat.mul_left_comm 2 c.numerator, Nat.mul_left_comm 2 (10 ^ _), hdouble] at this
  have hunits : 2 * (FloatFormat.single.units x.index * c.denominator) =
        2 * significand * DecimalGrid.denominator exponent c.exponent ∨
      2 * (FloatFormat.single.units x.index * c.denominator) =
        2 * significand * DecimalGrid.denominator exponent c.exponent +
          2 * DecimalGrid.denominator exponent c.exponent := by
    rw [DecimalGrid.denominator, ← denominator]
    rcases hnext with hk | hk
    · left
      rw [hk, h.units]
      ring
    · right
      rw [hk, h.units_succ]
      ring
  have hgrid : NearMiss (DecimalGrid.numerator c.exponent) (DecimalGrid.denominator exponent c.exponent)
      c.coefficient (2 * significand + 1) := by
    obtain ⟨hle, hge, hne⟩ := hmiss
    rw [hnumerator] at hle hge hne
    exact ⟨hle, hge, hne⟩
  refine DecimalGrid.isNearlyMissed (by omega) ?_ (Nat.succ_pos _) (by omega) hgrid
  obtain ⟨hle, hge, -⟩ := hgrid
  rw [← hnumerator] at hle hge
  -- Half a step of the singles at the midpoint is no more than the step of the decimal and the near miss.
  have hless : 2 ^ 29 - 1 = 536870911 := rfl
  rw [hless]
  rcases hunits with hbelow | habove
  · linarith
  · linarith

variable (hnearest : FloatFormat.single.nearest c.numerator c.denominator = x.index)

include hnearest in
private theorem nearest_double_lt :
    FloatFormat.double.nearest c.numerator c.denominator < FloatFormat.double.infinity := by
  obtain ⟨exponent, significand, h⟩ := FloatFormat.single.exists_shape x.index
  obtain ⟨m, hm, -, hfinite⟩ := FloatFormat.exists_double_midpoint h (h.exponent_le x.index_lt)
  exact Nat.lt_of_le_of_lt (FloatFormat.nearest_double_le c.denominator_pos hm (Nat.le_of_eq hnearest)) hfinite

include hclose hnearest

private theorem IsWithinStep.le_nearest_twice :
    x.index ≤ FloatFormat.single.nearest
      (FloatFormat.double.units (FloatFormat.double.nearest c.numerator c.denominator))
      (2 ^ FloatFormat.double.scale) := by
  by_contra hlt
  obtain ⟨k, hk⟩ : ∃ k, x.index = k + 1 := ⟨x.index - 1, by omega⟩
  obtain ⟨exponent, significand, h⟩ := FloatFormat.single.exists_shape k
  have hexponent := h.exponent_le (Nat.lt_trans (by omega) x.index_lt)
  obtain ⟨m, hm, hpos, -⟩ := FloatFormat.exists_double_midpoint h hexponent
  have htwice := FloatFormat.nearest_twice_le_iff (n := c.numerator) c.denominator_pos h hm hpos
  rcases htwice with hagrees | ⟨hmiss, hparity⟩
  · have hle := hagrees.mp (by omega)
    omega
  · -- Both midpoints that are nearly missed are above odd singles, and rounding goes up from there.
    have hodd := h.eq_of_isNearlyMissed (hclose.isNearlyMissed h hexponent (.inr hk) hmiss)
    have heven := hparity.mp (by omega)
    rcases hodd with rfl | rfl
    · cases heven
    · cases heven

/-- A decimal close to a single comes back through a double as that single, unless the midpoint above the single is
one of those that are nearly missed. -/
theorem IsWithinStep.nearest_twice :
    x.index = FloatFormat.misreadSingle ∨ x.index = 0x162E43FD ∨
      FloatFormat.single.nearest (FloatFormat.double.units (FloatFormat.double.nearest c.numerator c.denominator))
        (2 ^ FloatFormat.double.scale) = x.index := by
  obtain ⟨exponent, significand, h⟩ := FloatFormat.single.exists_shape x.index
  have hexponent := h.exponent_le x.index_lt
  obtain ⟨m, hm, hpos, -⟩ := FloatFormat.exists_double_midpoint h hexponent
  rcases FloatFormat.nearest_twice_le_iff (n := c.numerator) c.denominator_pos h hm hpos with hagrees | ⟨hmiss, -⟩
  · have hle := hagrees.mpr (Nat.le_of_eq hnearest)
    exact .inr (.inr (Nat.le_antisymm hle (hclose.le_nearest_twice hnearest)))
  · rcases h.eq_of_isNearlyMissed (hclose.isNearlyMissed h hexponent (.inl rfl) hmiss) with hfirst | hsecond
    · exact .inl hfirst
    · exact .inr (.inl hsecond)

end ThroughDouble

private theorem round_eq_finite {f : FloatFormat} {negative : Bool} {c : Decimal} {x : FiniteFloat f} (hx : x.index ≠ 0)
    (h : round f negative c = .finite x) :
    c.coefficient ≠ 0 ∧ -(f.scale : Int) ≤ digitCount c.coefficient + c.exponent ∧
      digitCount c.coefficient + c.exponent ≤ (2 ^ (f.exponentBits - 1) : Int) ∧
      f.nearest c.numerator c.denominator = x.index := by
  simp only [round] at h
  split at h
  · exact absurd (FloatValue.index_of_ofIndex h).symm hx
  · split at h
    · cases h
    · have hnearest := FloatValue.index_of_ofIndex h
      have hlt := x.index_lt
      exact ⟨by omega, by omega, by omega, by omega⟩

private theorem round_double {negative : Bool} {c : Decimal} {x : Single} (hx : x.index ≠ 0)
    (h : round .single negative c = .finite x) :
    ∃ y : Double, y.negative = negative ∧ y.index = FloatFormat.double.nearest c.numerator c.denominator ∧
      round .double negative c = .finite y := by
  obtain ⟨hcoefficient, hlow, hhigh, hnearest⟩ := round_eq_finite hx h
  have hfinite := nearest_double_lt hnearest
  refine ⟨⟨negative, _, hfinite⟩, rfl, rfl, ?_⟩
  have hlow' : ¬((digitCount c.coefficient : Int) + c.exponent < -(FloatFormat.double.scale : Int)) := by
    have hsingle : (FloatFormat.single.scale : Int) = 149 := rfl
    have hdouble : (FloatFormat.double.scale : Int) = 1074 := rfl
    omega
  have hhigh' : ¬((2 ^ (FloatFormat.double.exponentBits - 1) : Int) < digitCount c.coefficient + c.exponent) := by
    have hsingle : (2 ^ (FloatFormat.single.exponentBits - 1) : Int) = 128 := rfl
    have hdouble : (2 ^ (FloatFormat.double.exponentBits - 1) : Int) = 1024 := rfl
    omega
  rw [round]
  simp only [hcoefficient, hlow', hhigh', or_self, if_false]
  rw [FloatValue.round, Nat.min_eq_left (Nat.le_of_lt hfinite), FloatValue.ofIndex, dif_pos hfinite]

end Decimal

theorem shortestDecimal_cases (x : Single) :
    x.index = 0 ∧ shortestDecimal (.finite x) = .finite ⟨x.negative, 0, by decide⟩ ∨
    ∃ c : Decimal, ∃ y : Double,
      c.IsWithinStep (FloatFormat.single.units x.index) (2 ^ FloatFormat.single.scale) ∧
      FloatFormat.single.nearest c.numerator c.denominator = x.index ∧ y.negative = x.negative ∧
      y.index = FloatFormat.double.nearest c.numerator c.denominator ∧ shortestDecimal (.finite x) = .finite y := by
  by_cases hx : x.index = 0
  · obtain ⟨negative, index, hlt⟩ := x
    obtain rfl : index = 0 := hx
    have hzero : ∀ negative : Bool, shortestDecimal (.finite ⟨negative, 0, by decide⟩) =
        .finite ⟨negative, 0, by decide⟩ := by decide +kernel
    exact .inl ⟨rfl, hzero negative⟩
  · obtain ⟨c, hshortest, hreads, hclose⟩ := FiniteFloat.exists_shortest (by decide) .upward hx
    obtain ⟨y, hnegative, hindex, hround⟩ := Decimal.round_double hx hreads
    refine .inr ⟨c, y, hclose, (Decimal.round_eq_finite hx hreads).2.2.2, hnegative, hindex, ?_⟩
    rw [shortestDecimal, hshortest, Decimal.round_strip, hround]

theorem exists_shortestDecimal (x : Single) : ∃ y : Double, shortestDecimal (.finite x) = .finite y := by
  rcases shortestDecimal_cases x with ⟨-, hzero⟩ | ⟨-, y, -, -, -, -, hdouble⟩
  · exact ⟨_, hzero⟩
  · exact ⟨y, hdouble⟩

/-- Every finite single but one, of either sign, comes back from the double that has its digits. -/
theorem convert_shortestDecimal {x : Single} (hx : x.index ≠ FloatFormat.misreadSingle) :
    FloatValue.convert .single (shortestDecimal (.finite x)) = .finite x := by
  rcases shortestDecimal_cases x with ⟨hindex, hzero⟩ | ⟨c, y, hclose, hnearest, hnegative, hindex, hdouble⟩
  · obtain ⟨negative, index, hlt⟩ := x
    obtain rfl : index = 0 := hindex
    have hback : ∀ negative : Bool,
        FloatValue.convert .single (.finite ⟨negative, 0, by decide⟩ : FloatValue .double) =
          .finite ⟨negative, 0, by decide⟩ := by decide +kernel
    rw [hzero]
    exact hback negative
  · rcases hclose.nearest_twice hnearest with hmisread | hother | htwice
    · exact absurd hmisread hx
    · obtain ⟨negative, index, hlt⟩ := x
      obtain rfl : index = 0x162E43FD := hother
      have hback : ∀ negative : Bool, FloatValue.convert .single
          (shortestDecimal (.finite ⟨negative, 0x162E43FD, by decide⟩)) =
            .finite ⟨negative, 0x162E43FD, by decide⟩ := by decide +kernel
      exact hback negative
    · rw [hdouble, FloatValue.convert, FloatValue.round, hindex, htwice, Nat.min_eq_left (Nat.le_of_lt x.index_lt),
        hnegative, FloatValue.ofIndex_index]

/-- The one that does not comes back as the next one. -/
theorem convert_shortestDecimal_misread {x : Single} (hx : x.index = FloatFormat.misreadSingle) :
    FloatValue.convert .single (shortestDecimal (.finite x)) =
      .ofIndex .single x.negative (FloatFormat.misreadSingle + 1) := by
  obtain ⟨negative, index, hlt⟩ := x
  obtain rfl : index = FloatFormat.misreadSingle := hx
  have hnext : ∀ negative : Bool, FloatValue.convert .single
      (shortestDecimal (.finite ⟨negative, FloatFormat.misreadSingle, by decide⟩)) =
        .ofIndex .single negative (FloatFormat.misreadSingle + 1) := by decide +kernel
  exact hnext negative

end FieldLink
