import FieldLink.Decimal
import FieldLink.Proofs.FloatRounding

/-!
# Floats read back from their decimals

The decimal that is written for a float reads back as that float, and has no more digits than a reader keeps.
Zeros at the end of a coefficient change neither.
-/

namespace FieldLink

theorem ten_pow_pos (k : Nat) : 0 < 10 ^ k := Nat.pow_pos (by decide)

private theorem five_pow_pos (k : Nat) : 0 < 5 ^ k := Nat.pow_pos (by decide)

theorem digitCount_le_iff (n k : Nat) : digitCount n ≤ k ↔ n < 10 ^ k := by
  induction k generalizing n with
  | zero =>
    rw [digitCount]
    split
    · next h => simp [h]
    · next h => simp [h]
  | succ k ih =>
    rw [digitCount]
    split
    · next h => simp [h]
    · next h =>
      rw [Nat.add_le_add_iff_right, ih, Nat.pow_succ, Nat.div_lt_iff_lt_mul (by decide)]

theorem digitCount_pos {n : Nat} (h : n ≠ 0) : 0 < digitCount n := by
  rw [digitCount, dif_neg h]
  exact Nat.succ_pos _

private theorem digitCount_mul_ten {n : Nat} (h : n ≠ 0) : digitCount (n * 10) = digitCount n + 1 := by
  rw [digitCount, dif_neg (by omega), Nat.mul_div_cancel n (by decide)]

theorem digitCount_mono {m n : Nat} (h : m ≤ n) : digitCount m ≤ digitCount n := by
  rw [digitCount_le_iff]
  exact Nat.lt_of_le_of_lt h ((digitCount_le_iff n _).mp (Nat.le_refl _))

theorem lt_pow_digitCount (n : Nat) : n < 10 ^ digitCount n :=
  (digitCount_le_iff n _).mp (Nat.le_refl _)

private theorem pow_le_of_digitCount {n k : Nat} (h : digitCount n = k + 1) : 10 ^ k ≤ n := by
  have : ¬digitCount n ≤ k := by omega
  rw [digitCount_le_iff] at this
  exact Nat.le_of_not_lt this

namespace Decimal

variable {f : FloatFormat}

private theorem round_ten (negative : Bool) {c : Nat} (hc : c ≠ 0) (e : Int) :
    round f negative ⟨c * 10, e⟩ = round f negative ⟨c, e + 1⟩ := by
  have htop : ((digitCount (c * 10) : Nat) : Int) + e = digitCount c + (e + 1) := by
    rw [digitCount_mul_ten hc]
    omega
  have hten : c * 10 ≠ 0 := by omega
  have hnearest : f.nearest (numerator ⟨c * 10, e⟩) (denominator ⟨c * 10, e⟩) =
      f.nearest (numerator ⟨c, e + 1⟩) (denominator ⟨c, e + 1⟩) := by
    apply FloatFormat.nearest_congr (ten_pow_pos _) (ten_pow_pos _)
    have hexponents : 1 + e.toNat + (-(e + 1)).toNat = (e + 1).toNat + (-e).toNat := by omega
    calc
      c * 10 * 10 ^ e.toNat * 10 ^ (-(e + 1)).toNat = c * 10 ^ (1 + e.toNat + (-(e + 1)).toNat) := by ring
      _ = c * 10 ^ ((e + 1).toNat + (-e).toNat) := by rw [hexponents]
      _ = c * 10 ^ (e + 1).toNat * 10 ^ (-e).toNat := by ring
  simp only [round, FloatValue.round, htop, hten, hc, hnearest, false_or]

theorem round_mul_pow (negative : Bool) {c : Nat} (hc : c ≠ 0) (k : Nat) (e : Int) :
    round f negative ⟨c * 10 ^ k, e⟩ = round f negative ⟨c, e + k⟩ := by
  induction k generalizing e with
  | zero => simp
  | succ k ih =>
    have hpow : c * 10 ^ k ≠ 0 := Nat.mul_ne_zero hc (ten_pow_pos k).ne'
    calc
      round f negative ⟨c * 10 ^ (k + 1), e⟩ = round f negative ⟨c * 10 ^ k * 10, e⟩ := by
        rw [Nat.pow_succ, Nat.mul_assoc]
      _ = round f negative ⟨c * 10 ^ k, e + 1⟩ := round_ten negative hpow e
      _ = round f negative ⟨c, e + 1 + k⟩ := ih (e + 1)
      _ = round f negative ⟨c, e + (k + 1 : Nat)⟩ := by
        congr 2
        omega

theorem round_strip (negative : Bool) (d : Decimal) : round f negative d.strip = round f negative d := by
  induction d using strip.induct with
  | case1 d h ih =>
    have hquotient : d.coefficient / 10 ≠ 0 := by omega
    have hcoefficient : d.coefficient / 10 * 10 = d.coefficient := by omega
    rw [strip, dif_pos h, ih, ← round_ten negative hquotient, hcoefficient]
  | case2 d h => rw [strip, dif_neg h]

private theorem coefficient_strip_le (d : Decimal) : d.strip.coefficient ≤ d.coefficient := by
  induction d using strip.induct with
  | case1 d h ih =>
    rw [strip, dif_pos h]
    exact Nat.le_trans ih (Nat.div_le_self _ _)
  | case2 d h => rw [strip, dif_neg h]

private theorem strip_mul_pow {c : Nat} (hc : c ≠ 0) (k : Nat) (e : Int) :
    strip ⟨c * 10 ^ k, e⟩ = strip ⟨c, e + k⟩ := by
  induction k generalizing e with
  | zero => simp
  | succ k ih =>
    have hpow : c * 10 ^ k ≠ 0 := Nat.mul_ne_zero hc (ten_pow_pos k).ne'
    have hten : c * 10 ^ (k + 1) = c * 10 ^ k * 10 := by rw [Nat.pow_succ, Nat.mul_assoc]
    rw [strip, dif_pos (by simp only [hten]; omega)]
    simp only [hten, Nat.mul_div_cancel _ (show 0 < 10 by decide)]
    rw [ih]
    congr 2
    omega

private theorem coefficient_ne_zero {d : Decimal} {x : FiniteFloat f} (hf : 0 < f.infinity) (hx : x.index ≠ 0)
    (h : round f x.negative d = .finite x) : d.coefficient ≠ 0 := by
  intro hzero
  rw [round, hzero] at h
  simp only [true_or, if_true, FloatValue.ofIndex, dif_pos hf] at h
  exact hx (congrArg FiniteFloat.index (FloatValue.finite.inj h)).symm

end Decimal

private theorem lt_pow_leadingExponent {n d : Nat} (hn : 0 < n) (hd : 0 < d) :
    n * 10 ^ (-(leadingExponent n d + 1)).toNat < d * 10 ^ (leadingExponent n d + 1).toNat := by
  rw [leadingExponent]
  split
  · next h =>
    have hquotient := lt_pow_digitCount (n / d)
    have hpos := digitCount_pos (Nat.pos_iff_ne_zero.mp (Nat.div_pos h hd))
    have hup : ((digitCount (n / d) : Int) - 1 + 1).toNat = digitCount (n / d) := by omega
    have hdown : (-((digitCount (n / d) : Int) - 1 + 1)).toNat = 0 := by omega
    rw [hup, hdown, Nat.pow_zero, Nat.mul_one, Nat.mul_comm]
    exact (Nat.div_lt_iff_lt_mul hd).mp hquotient
  · next h =>
    obtain ⟨k, hk⟩ : ∃ k, digitCount ((d - 1) / n) = k + 1 := by
      have := digitCount_pos (Nat.pos_iff_ne_zero.mp (Nat.div_pos (show n ≤ d - 1 by omega) hn))
      exact ⟨digitCount ((d - 1) / n) - 1, by omega⟩
    have hle : 10 ^ k * n ≤ d - 1 := (Nat.le_div_iff_mul_le hn).mp (pow_le_of_digitCount hk)
    have hup : (-((digitCount ((d - 1) / n) : Nat) : Int) + 1).toNat = 0 := by omega
    have hdown : (-(-((digitCount ((d - 1) / n) : Nat) : Int) + 1)).toNat = k := by omega
    rw [hup, hdown, Nat.pow_zero, Nat.mul_one, Nat.mul_comm]
    omega

private theorem digitCount_neighbours {tie : TieRule} {n d more : Nat} {c : Decimal} (hn : 0 < n) (hd : 0 < d)
    (h : c ∈ neighbours tie n d (leadingExponent n d - more)) : digitCount c.coefficient ≤ more + 2 := by
  have hlow : n * 10 ^ (-(leadingExponent n d - more)).toNat /
      (d * 10 ^ (leadingExponent n d - more).toNat) < 10 ^ (more + 1) := by
    rw [Nat.div_lt_iff_lt_mul (Nat.mul_pos hd (ten_pow_pos _))]
    have hlead := lt_pow_leadingExponent hn hd
    generalize leadingExponent n d = e at hlead
    -- Natural exponents on either side of the quotient, and the step `k` from the one grid to the other.
    obtain ⟨k, hdown, hup⟩ : ∃ k, (-(e - more)).toNat = (-(e + 1)).toNat + k ∧
        more + 1 + (e - more).toNat = (e + 1).toNat + k :=
      ⟨(-(e - more)).toNat - (-(e + 1)).toNat, by omega, by omega⟩
    calc
      n * 10 ^ (-(e - more)).toNat = n * 10 ^ (-(e + 1)).toNat * 10 ^ k := by
        rw [hdown, Nat.pow_add, Nat.mul_assoc]
      _ < d * 10 ^ (e + 1).toNat * 10 ^ k := Nat.mul_lt_mul_of_pos_right hlead (ten_pow_pos k)
      _ = d * 10 ^ (more + 1 + (e - more).toNat) := by rw [hup, Nat.pow_add, Nat.mul_assoc]
      _ = 10 ^ (more + 1) * (d * 10 ^ (e - more).toNat) := by ring
  rw [digitCount_le_iff]
  have hgrow : 10 ^ (more + 2) = 10 ^ (more + 1) * 10 := Nat.pow_succ ..
  have hone := ten_pow_pos (more + 1)
  simp only [neighbours] at h
  split at h
  all_goals
    simp only [List.mem_cons, List.not_mem_nil, or_false] at h
    rcases h with rfl | rfl
    all_goals
      simp only
      omega

namespace FloatFormat

variable {f : FloatFormat}

private theorem units_lt (hf : 2 ≤ f.exponentBits) {index : Nat} (h : index < f.infinity) :
    f.units index < 2 ^ (f.scale + 2 ^ (f.exponentBits - 1)) := by
  obtain ⟨bits, hbits⟩ : ∃ bits, f.exponentBits = bits + 2 := ⟨f.exponentBits - 2, by omega⟩
  have hfour : 2 ^ f.exponentBits = 2 * 2 ^ (f.exponentBits - 1) := by
    rw [hbits, show bits + 2 - 1 = bits + 1 by omega]
    ring
  have htwo : 2 ≤ 2 ^ (f.exponentBits - 1) := by
    rw [hbits, show bits + 2 - 1 = bits + 1 by omega, Nat.pow_succ]
    have := Nat.two_pow_pos bits
    omega
  have hrange : f.infinity = (2 ^ f.exponentBits - 2 + 1) * 2 ^ f.fractionBits := by
    rw [infinity, show 2 ^ f.exponentBits - 2 + 1 = 2 ^ f.exponentBits - 1 by omega]
  obtain ⟨a, k, ha, hk, hunits⟩ := exists_significand (Nat.lt_of_lt_of_eq h hrange)
  rw [hunits]
  calc
    a * 2 ^ k < 2 ^ (f.fractionBits + 1) * 2 ^ k := Nat.mul_lt_mul_of_pos_right ha (Nat.two_pow_pos k)
    _ = 2 ^ (f.fractionBits + 1 + k) := (Nat.pow_add 2 _ _).symm
    _ ≤ 2 ^ (f.scale + 2 ^ (f.exponentBits - 1)) := by
      apply Nat.pow_le_pow_right (by decide)
      rw [scale]
      omega

end FloatFormat

namespace FiniteFloat

variable {f : FloatFormat}

theorem round_exactDecimal (hf : 2 ≤ f.exponentBits) {x : FiniteFloat f} (hx : x.index ≠ 0) :
    Decimal.round f x.negative x.exactDecimal = .finite x := by
  have hunits : f.units x.index ≠ 0 := FloatFormat.units_ne_zero hx
  have hcoefficient : f.units x.index * 5 ^ f.scale ≠ 0 :=
    Nat.mul_ne_zero hunits (five_pow_pos _).ne'
  have hdigits : digitCount (f.units x.index * 5 ^ f.scale) ≤ f.scale + 2 ^ (f.exponentBits - 1) := by
    rw [digitCount_le_iff]
    calc
      f.units x.index * 5 ^ f.scale
        < 2 ^ (f.scale + 2 ^ (f.exponentBits - 1)) * 5 ^ f.scale :=
          Nat.mul_lt_mul_of_pos_right (FloatFormat.units_lt hf x.index_lt) (five_pow_pos _)
      _ = (2 * 5) ^ f.scale * 2 ^ 2 ^ (f.exponentBits - 1) := by
        rw [Nat.mul_pow, Nat.pow_add]
        ring
      _ ≤ 10 ^ f.scale * 10 ^ 2 ^ (f.exponentBits - 1) :=
        Nat.mul_le_mul_left _ (Nat.pow_le_pow_left (by decide) _)
      _ = 10 ^ (f.scale + 2 ^ (f.exponentBits - 1)) := (Nat.pow_add 10 _ _).symm
  have hlow : ¬((digitCount (f.units x.index * 5 ^ f.scale) : Int) + -(f.scale : Int) < -(f.scale : Int)) := by
    omega
  have hhigh : ¬((2 ^ (f.exponentBits - 1) : Int) <
      (digitCount (f.units x.index * 5 ^ f.scale) : Int) + -(f.scale : Int)) := by
    have hcast : ((2 ^ (f.exponentBits - 1) : Nat) : Int) = 2 ^ (f.exponentBits - 1) := by
      push_cast
      rfl
    omega
  simp only [exactDecimal, Decimal.round, hcoefficient, hlow, hhigh, or_self, if_false]
  have hup : (-(f.scale : Int)).toNat = 0 := by omega
  have hdown : (- -(f.scale : Int)).toNat = f.scale := by omega
  refine FloatValue.round_exact (ten_pow_pos _) ?_
  simp only [Decimal.numerator, Decimal.denominator, hup, hdown, Nat.pow_zero, Nat.mul_one]
  rw [Nat.mul_assoc, ← Nat.mul_pow]

variable (tie : TieRule)

/-- The decimal that is written for a float is a neighbour that reads back, or has all its digits. -/
theorem shortest_cases (x : FiniteFloat f) :
    x.shortest tie = x.exactDecimal.strip ∨
    ∃ more c, more ≤ f.fractionBits ∧
      c ∈ neighbours tie (f.units x.index) (2 ^ f.scale)
        (leadingExponent (f.units x.index) (2 ^ f.scale) - (more : Nat)) ∧
      Decimal.round f x.negative c = .finite x ∧ x.shortest tie = c.strip := by
  simp only [shortest]
  generalize hfound : List.findSome? _ _ = found
  cases found with
  | none => exact Or.inl rfl
  | some c =>
    obtain ⟨more, hmore, hfirst⟩ := List.exists_of_findSome?_eq_some hfound
    have hreads := List.find?_some hfirst
    simp only [decide_eq_true_eq] at hreads
    exact Or.inr ⟨more, c, Nat.lt_succ_iff.mp (List.mem_range.mp hmore), List.mem_of_find?_eq_some hfirst,
      hreads, rfl⟩

/-- What is written for a float reads back as the float. -/
theorem round_shortest (hf : 2 ≤ f.exponentBits) {x : FiniteFloat f} (hx : x.index ≠ 0) :
    Decimal.round f x.negative (x.shortest tie) = .finite x := by
  rcases x.shortest_cases tie with hexact | ⟨more, c, -, -, hreads, hshortest⟩
  · rw [hexact, Decimal.round_strip, round_exactDecimal hf hx]
  · rw [hshortest, Decimal.round_strip, hreads]

theorem coefficient_shortest_ne_zero (hf : 2 ≤ f.exponentBits) {x : FiniteFloat f} (hx : x.index ≠ 0) :
    (x.shortest tie).coefficient ≠ 0 :=
  Decimal.coefficient_ne_zero (Nat.lt_of_le_of_lt (Nat.zero_le _) x.index_lt) hx (round_shortest tie hf hx)

private theorem coefficient_strip_exactDecimal {x : FiniteFloat f} {a k : Nat} (ha : a ≠ 0)
    (hunits : f.units x.index = a * 2 ^ k) :
    x.exactDecimal.strip.coefficient ≤ a * 2 ^ (k - f.scale) * 5 ^ (f.scale - k) := by
  have hsplit : f.units x.index * 5 ^ f.scale =
      a * 2 ^ (k - f.scale) * 5 ^ (f.scale - k) * 10 ^ min k f.scale := by
    have htwo : 2 ^ k = 2 ^ (k - f.scale) * 2 ^ min k f.scale := by
      rw [← Nat.pow_add]
      congr 1
      omega
    have hfive : 5 ^ f.scale = 5 ^ (f.scale - k) * 5 ^ min k f.scale := by
      rw [← Nat.pow_add]
      congr 1
      omega
    have hten : 10 ^ min k f.scale = 2 ^ min k f.scale * 5 ^ min k f.scale := by rw [← Nat.mul_pow]
    rw [hunits, htwo, hfive, hten]
    ring
  have hne : a * 2 ^ (k - f.scale) * 5 ^ (f.scale - k) ≠ 0 :=
    Nat.mul_ne_zero (Nat.mul_ne_zero ha (Nat.two_pow_pos _).ne') (five_pow_pos _).ne'
  rw [exactDecimal, hsplit, Decimal.strip_mul_pow hne]
  exact Decimal.coefficient_strip_le _

/-- A double is written with no more digits than a reader keeps. -/
theorem digitCount_shortest {x : Double} (hx : x.index ≠ 0) :
    digitCount (x.shortest tie).coefficient ≤ 768 := by
  have hunits : FloatFormat.double.units x.index ≠ 0 := FloatFormat.units_ne_zero hx
  rcases x.shortest_cases tie with hexact | ⟨more, c, hmore, hmem, -, hshortest⟩
  · have hindex : x.index < (2046 + 1) * 2 ^ FloatFormat.double.fractionBits := x.index_lt
    obtain ⟨a, k, ha, hk, hsignificand⟩ := FloatFormat.exists_significand hindex
    have ha0 : a ≠ 0 := by
      rintro rfl
      exact hunits (by rw [hsignificand, Nat.zero_mul])
    have hle := coefficient_strip_exactDecimal ha0 hsignificand
    have hscale : FloatFormat.double.scale = 1074 := by decide
    have hbound : 2 ^ 53 * 5 ^ FloatFormat.double.scale < 10 ^ 768 := by decide +kernel
    -- The powers are too large to be computed anywhere but in the kernel.
    generalize FloatFormat.double.scale = scale at hle hscale hbound
    have htwo : 2 ^ (k - scale) ≤ 5 ^ (k - scale) := Nat.pow_le_pow_left (by decide) _
    have hexponents : k - scale + (scale - k) ≤ scale := by omega
    rw [hexact, digitCount_le_iff]
    calc
      x.exactDecimal.strip.coefficient ≤ a * 2 ^ (k - scale) * 5 ^ (scale - k) := hle
      _ ≤ 2 ^ 53 * 5 ^ (k - scale) * 5 ^ (scale - k) :=
        Nat.mul_le_mul_right _ (Nat.mul_le_mul (Nat.le_of_lt ha) htwo)
      _ = 2 ^ 53 * 5 ^ (k - scale + (scale - k)) := by rw [Nat.mul_assoc, ← Nat.pow_add]
      _ ≤ 2 ^ 53 * 5 ^ scale := Nat.mul_le_mul_left _ (Nat.pow_le_pow_right (by decide) hexponents)
      _ < 10 ^ 768 := hbound
  · have hdigits := digitCount_neighbours (Nat.pos_iff_ne_zero.mpr hunits) (Nat.two_pow_pos _) hmem
    have hfraction : more ≤ 52 := hmore
    have hcut := digitCount_mono (Decimal.coefficient_strip_le c)
    rw [hshortest]
    omega

end FiniteFloat
end FieldLink
