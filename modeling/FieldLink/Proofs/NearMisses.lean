import FieldLink.BinaryFloat
import Mathlib.Tactic.Linarith
import Mathlib.Tactic.LinearCombination
import Mathlib.Tactic.Ring
import Mathlib.Tactic.Zify

/-!
# Near misses of midpoints

Decimals of few digits that come close to a midpoint between singles without being it. For each exponent of two
a pair of neighbouring fractions encloses the ratio of the two grids; a multiple that comes too close to a whole
number must be a multiple of one of the two, and one of them alone comes so close.
-/

namespace FieldLink

/-- The multiple `c * a / b` misses the whole number `m`, but by no more than `2 ^ -29`. -/
structure NearMiss (a b c m : Nat) : Prop where
  le : 2 ^ 29 * (c * a) ≤ (2 ^ 29 * m + 1) * b
  ge : 2 ^ 29 * m * b ≤ 2 ^ 29 * (c * a) + b
  ne : c * a ≠ m * b

structure Bracket where
  low : Nat
  lowOver : Nat
  high : Nat
  highOver : Nat

namespace Bracket

/-- The ratio `a / b` lies between the fractions, and no fraction between them has a denominator below the sum of
theirs. -/
structure Encloses (x : Bracket) (a b : Nat) : Prop where
  neighbours : x.high * x.lowOver = x.low * x.highOver + 1
  above : x.low * b ≤ x.lowOver * a
  below : x.highOver * a ≤ x.high * b

instance (x : Bracket) (a b : Nat) : Decidable (x.Encloses a b) :=
  decidable_of_iff (x.high * x.lowOver = x.low * x.highOver + 1 ∧ x.low * b ≤ x.lowOver * a ∧
    x.highOver * a ≤ x.high * b) ⟨fun h => ⟨h.1, h.2.1, h.2.2⟩, fun h => ⟨h.1, h.2, h.3⟩⟩

def lowError (x : Bracket) (a b : Nat) : Nat := x.lowOver * a - x.low * b

def highError (x : Bracket) (a b : Nat) : Nat := x.high * b - x.highOver * a

/-- A combination of both fractions is either too large or too far from the ratio, so that one of them is absent. -/
theorem eq_zero_of_combination {u v : ℤ} {q s α β : ℕ} (hpos : 0 < u * q + v * s) (hlt : u * q + v * s < q + s)
    (hupper : u * α - v * β < α + β) (hlower : -(α + β : ℤ) < u * α - v * β) :
    v = 0 ∧ 0 < u ∨ u = 0 ∧ 0 < v := by
  rcases lt_trichotomy u 0 with hu | rfl | hu
  · rcases le_or_gt v 0 with hv | hv
    · have hfirst := mul_nonneg (neg_nonneg.mpr hu.le) (Int.natCast_nonneg q)
      have hsecond := mul_nonneg (neg_nonneg.mpr hv) (Int.natCast_nonneg s)
      exfalso
      linarith
    · -- With factors of different signs the errors add up.
      have hlow := mul_le_mul_of_nonneg_right (show 1 ≤ -u by omega) (Int.natCast_nonneg α)
      have hhigh := mul_le_mul_of_nonneg_right (show 1 ≤ v by omega) (Int.natCast_nonneg β)
      exfalso
      linarith
  · rw [zero_mul, zero_add] at hpos
    exact .inr ⟨rfl, pos_of_mul_pos_left hpos (Int.natCast_nonneg s)⟩
  · rcases lt_trichotomy v 0 with hv | rfl | hv
    · have hlow := mul_le_mul_of_nonneg_right (show 1 ≤ u by omega) (Int.natCast_nonneg α)
      have hhigh := mul_le_mul_of_nonneg_right (show 1 ≤ -v by omega) (Int.natCast_nonneg β)
      exfalso
      linarith
    · exact .inl ⟨rfl, hu⟩
    · -- With two positive factors the denominators add up.
      have hfirst := mul_le_mul_of_nonneg_right (show 1 ≤ u by omega) (Int.natCast_nonneg q)
      have hsecond := mul_le_mul_of_nonneg_right (show 1 ≤ v by omega) (Int.natCast_nonneg s)
      exfalso
      linarith

/-- A multiple that comes closer to a whole number than both errors together is made of one of the fractions. -/
theorem Encloses.exists_multiple {x : Bracket} {a b c m : Nat} (h : x.Encloses a b) (hc : 0 < c)
    (hlt : c < x.lowOver + x.highOver) (hle : c * a < m * b + (x.lowError a b + x.highError a b))
    (hge : m * b < c * a + (x.lowError a b + x.highError a b)) :
    ∃ k, 0 < k ∧ (c = k * x.lowOver ∧ m = k * x.low ∨ c = k * x.highOver ∧ m = k * x.high) := by
  obtain ⟨p, q, r, s⟩ := x
  obtain ⟨hneighbours, habove, hbelow⟩ := h
  obtain ⟨α, hα⟩ := Nat.exists_eq_add_of_le habove
  obtain ⟨β, hβ⟩ := Nat.exists_eq_add_of_le hbelow
  simp only [lowError, highError] at hlt hle hge hneighbours hα hβ
  rw [hα, hβ, Nat.add_sub_cancel_left, Nat.add_sub_cancel_left] at hle hge
  zify at hc hlt hle hge hneighbours hα hβ
  -- The pair is an integer combination of the two fractions, since these are neighbours.
  obtain ⟨u, hu⟩ : ∃ u : ℤ, u = c * r - m * s := ⟨_, rfl⟩
  obtain ⟨v, hv⟩ : ∃ v : ℤ, v = m * q - c * p := ⟨_, rfl⟩
  have hcu : (c : ℤ) = u * q + v * s := by
    rw [hu, hv]
    linear_combination (-c : ℤ) * hneighbours
  have hmu : (m : ℤ) = u * p + v * r := by
    rw [hu, hv]
    linear_combination (-m : ℤ) * hneighbours
  have herror : (c : ℤ) * a - m * b = u * α - v * β := by
    rw [hcu, hmu]
    linear_combination u * hα - v * hβ
  have hupper : u * α - v * β < α + β := by linarith
  have hlower : -(α + β : ℤ) < u * α - v * β := by linarith
  rcases eq_zero_of_combination (hcu ▸ hc) (hcu ▸ hlt) hupper hlower with
    ⟨hzero, hpos⟩ | ⟨hzero, hpos⟩
  · lift u to ℕ using hpos.le
    rw [hzero, zero_mul, add_zero] at hcu hmu
    exact ⟨u, by omega, .inl ⟨by exact_mod_cast hcu, by exact_mod_cast hmu⟩⟩
  · lift v to ℕ using hpos.le
    rw [hzero, zero_mul, zero_add] at hcu hmu
    exact ⟨v, by omega, .inr ⟨by exact_mod_cast hcu, by exact_mod_cast hmu⟩⟩

/-- Moves the fractions towards the ratio, in turn and by as many steps as the errors allow, while the sum of the
denominators stays within a limit. -/
def narrow (a b limit : Nat) : Nat → Bracket → Bracket
  | 0, x => x
  | fuel + 1, x =>
    let low := x.lowError a b
    let high := x.highError a b
    if limit < x.lowOver + x.highOver then x
    else if high ≤ low then
      let room := (limit - x.lowOver) / x.highOver
      let steps := if high = 0 then room else min (low / high) room
      narrow a b limit fuel { x with low := x.low + steps * x.high, lowOver := x.lowOver + steps * x.highOver }
    else
      let room := (limit - x.highOver) / x.lowOver
      let steps := if low = 0 then room else min (high / low) room
      narrow a b limit fuel { x with high := x.high + steps * x.low, highOver := x.highOver + steps * x.lowOver }

def around (a b limit : Nat) : Bracket := narrow a b limit 64 ⟨a / b, 1, a / b + 1, 1⟩

end Bracket

/-- The one whole number that is missed, and the exponents for which it is. -/
def IsNearlyMissed (t m : Nat) : Prop := m = 22841339 ∧ (t = 42 ∨ t = 43)

instance (t m : Nat) : Decidable (IsNearlyMissed t m) := inferInstanceAs (Decidable (_ ∧ _))

/-- Each of the two fractions is the ratio, or misses it by more than a near miss, or is the exception; and the
denominators leave no room for others. -/
structure Bracket.Separates (x : Bracket) (t a b : Nat) : Prop where
  encloses : x.Encloses a b
  wide : 2 ^ 25 * b ≤ (x.lowOver + x.highOver) * a
  apart : b < (x.lowError a b + x.highError a b) * 2 ^ 29
  low : x.lowError a b = 0 ∨ b < x.lowError a b * 2 ^ 29 ∨ IsNearlyMissed t x.low
  high : x.highError a b = 0 ∨ b < x.highError a b * 2 ^ 29 ∨ IsNearlyMissed t x.high

instance (x : Bracket) (t a b : Nat) : Decidable (x.Separates t a b) :=
  decidable_of_iff (x.Encloses a b ∧ 2 ^ 25 * b ≤ (x.lowOver + x.highOver) * a ∧
    b < (x.lowError a b + x.highError a b) * 2 ^ 29 ∧
    (x.lowError a b = 0 ∨ b < x.lowError a b * 2 ^ 29 ∨ IsNearlyMissed t x.low) ∧
    (x.highError a b = 0 ∨ b < x.highError a b * 2 ^ 29 ∨ IsNearlyMissed t x.high))
    ⟨fun h => ⟨h.1, h.2.1, h.2.2.1, h.2.2.2.1, h.2.2.2.2⟩, fun h => ⟨h.1, h.2, h.3, h.4, h.5⟩⟩

namespace DecimalGrid

def numerator (e : Int) : Nat := 10 ^ e.toNat * 2 ^ 150

def denominator (t : Nat) (e : Int) : Nat := 2 ^ t * 10 ^ (-e).toNat

def leastExponent (t : Nat) : Int := -((150 - (t : Int)) * 30103 / 100000)

/-- What the neighbours of the ratio show for one exponent of two, and that no smaller step comes into question. -/
def IsSettled (t : Nat) : Prop :=
  let a := numerator (leastExponent t)
  let b := denominator t (leastExponent t)
  2 ^ 29 * numerator (leastExponent t - 1) < (2 ^ 29 - 1) * denominator t (leastExponent t - 1) ∧
    (Bracket.around a b (2 ^ 25 * b / a)).Separates t a b

instance (t : Nat) : Decidable (IsSettled t) := inferInstanceAs (Decidable (_ ∧ _))

theorem isSettled : ∀ t < 254, IsSettled t := by
  decide +kernel

theorem denominator_pos (t : Nat) (e : Int) : 0 < denominator t e :=
  Nat.mul_pos (Nat.two_pow_pos _) (Nat.pow_pos (by decide))

private theorem numerator_mul_denominator (t k : Nat) (e : Int) :
    numerator (e + k) * denominator t e = numerator e * 10 ^ k * denominator t (e + k) := by
  have hexponents : (e + k).toNat + (-e).toNat = e.toNat + k + (-(e + k)).toNat := by omega
  calc
    numerator (e + k) * denominator t e = 10 ^ ((e + k).toNat + (-e).toNat) * (2 ^ 150 * 2 ^ t) := by
      rw [numerator, denominator, Nat.pow_add]
      ring
    _ = 10 ^ (e.toNat + k + (-(e + k)).toNat) * (2 ^ 150 * 2 ^ t) := by rw [hexponents]
    _ = numerator e * 10 ^ k * denominator t (e + k) := by
      rw [numerator, denominator, Nat.pow_add, Nat.pow_add]
      ring

private theorem leastExponent_le {t : Nat} (ht : t < 254) {e : Int}
    (h : (2 ^ 29 - 1) * denominator t e ≤ 2 ^ 29 * numerator e) : leastExponent t ≤ e := by
  by_contra hlt
  obtain ⟨k, hk⟩ : ∃ k : Nat, leastExponent t - 1 = e + k := ⟨(leastExponent t - 1 - e).toNat, by omega⟩
  have hshort := (isSettled t ht).1
  rw [hk] at hshort
  have hstep := numerator_mul_denominator t k e
  have hpos := denominator_pos t e
  have hgrow : numerator e * denominator t (e + k) ≤ numerator (e + k) * denominator t e := by
    rw [hstep, Nat.mul_right_comm]
    exact Nat.le_mul_of_pos_right _ (Nat.pow_pos (by decide))
  have hcontra : (2 ^ 29 - 1) * denominator t e * denominator t (e + k) <
      (2 ^ 29 - 1) * denominator t e * denominator t (e + k) := by
    calc
      (2 ^ 29 - 1) * denominator t e * denominator t (e + k)
        ≤ 2 ^ 29 * numerator e * denominator t (e + k) := Nat.mul_le_mul_right _ h
      _ = 2 ^ 29 * (numerator e * denominator t (e + k)) := Nat.mul_assoc _ _ _
      _ ≤ 2 ^ 29 * (numerator (e + k) * denominator t e) := Nat.mul_le_mul_left _ hgrow
      _ = 2 ^ 29 * numerator (e + k) * denominator t e := (Nat.mul_assoc _ _ _).symm
      _ < (2 ^ 29 - 1) * denominator t (e + k) * denominator t e := Nat.mul_lt_mul_of_pos_right hshort hpos
      _ = (2 ^ 29 - 1) * denominator t e * denominator t (e + k) := Nat.mul_right_comm _ _ _
  exact Nat.lt_irrefl _ hcontra

end DecimalGrid

namespace NearMiss

theorem refine {a b a' b' c m n : Nat} (hb : 0 < b) (hgrid : a * b' = a' * n * b) (h : NearMiss a b c m)
    (hb' : 0 < b') : NearMiss a' b' (c * n) m := by
  have hscale : c * n * a' * b = c * a * b' := by
    rw [Nat.mul_assoc c a, hgrid]
    ring
  refine ⟨?_, ?_, ?_⟩
  · refine Nat.le_of_mul_le_mul_right ?_ hb
    calc
      2 ^ 29 * (c * n * a') * b = 2 ^ 29 * (c * a) * b' := by
        rw [Nat.mul_assoc, hscale, ← Nat.mul_assoc]
      _ ≤ (2 ^ 29 * m + 1) * b * b' := Nat.mul_le_mul_right b' h.le
      _ = (2 ^ 29 * m + 1) * b' * b := Nat.mul_right_comm _ _ _
  · refine Nat.le_of_mul_le_mul_right ?_ hb
    calc
      2 ^ 29 * m * b' * b = 2 ^ 29 * m * b * b' := Nat.mul_right_comm _ _ _
      _ ≤ (2 ^ 29 * (c * a) + b) * b' := Nat.mul_le_mul_right b' h.ge
      _ = (2 ^ 29 * (c * n * a') + b') * b := by
        rw [Nat.add_mul, Nat.add_mul, Nat.mul_assoc (2 ^ 29) (c * n * a'), hscale]
        ring
  · intro heq
    refine h.ne (Nat.eq_of_mul_eq_mul_right hb' ?_)
    rw [← hscale, heq, Nat.mul_right_comm]

private theorem isNearlyMissed_of_multiple {t b k p error : Nat} (hk : 0 < k) (hlt : k * p < 2 ^ 25)
    (hsmall : 2 ^ 29 * (k * error) ≤ b) (hne : k * error ≠ 0)
    (h : error = 0 ∨ b < error * 2 ^ 29 ∨ IsNearlyMissed t p) : IsNearlyMissed t (k * p) := by
  rcases h with rfl | hlarge | hexception
  · exact absurd (Nat.mul_zero k) hne
  · have hle : error ≤ k * error := Nat.le_mul_of_pos_left error hk
    omega
  · have hp := hexception.1
    have hone : k = 1 := by
      rw [hp] at hlt
      omega
    rw [hone, Nat.one_mul]
    exact hexception

theorem isNearlyMissed_of_separates {x : Bracket} {t a b c m : Nat} (hx : x.Separates t a b) (hb : 0 < b)
    (hm : 0 < m) (hlt : m < 2 ^ 25) (h : NearMiss a b c m) : IsNearlyMissed t m := by
  obtain ⟨hle, hge, hne⟩ := h
  have hle : 2 ^ 29 * (c * a) ≤ 2 ^ 29 * (m * b) + b := by
    rw [← Nat.mul_assoc _ m, ← Nat.succ_mul]
    exact hle
  rw [Nat.mul_assoc] at hge
  have hmb : b ≤ m * b := Nat.le_mul_of_pos_left b hm
  have hbound : m * b + b ≤ 2 ^ 25 * b := by
    rw [← Nat.succ_mul]
    exact Nat.mul_le_mul_right b hlt
  have hc : 0 < c := by
    rcases Nat.eq_zero_or_pos c with rfl | hc
    · rw [Nat.zero_mul] at hge
      omega
    · exact hc
  have hwide : c < x.lowOver + x.highOver := by
    have hwide := hx.wide
    have hlt : c * a < (x.lowOver + x.highOver) * a := by omega
    exact Nat.lt_of_mul_lt_mul_right hlt
  have hapart := hx.apart
  have hbelow : c * a < m * b + (x.lowError a b + x.highError a b) := by omega
  have habove : m * b < c * a + (x.lowError a b + x.highError a b) := by omega
  obtain ⟨k, hk, ⟨rfl, rfl⟩ | ⟨rfl, rfl⟩⟩ := hx.encloses.exists_multiple hc hwide hbelow habove
  · have herror : k * x.lowOver * a = k * x.low * b + k * x.lowError a b := by
      rw [Bracket.lowError, Nat.mul_assoc, Nat.mul_assoc, ← Nat.mul_add, Nat.add_sub_cancel' hx.encloses.above]
    exact isNearlyMissed_of_multiple hk hlt (by omega) (by omega) hx.low
  · have herror : k * x.high * b = k * x.highOver * a + k * x.highError a b := by
      rw [Bracket.highError, Nat.mul_assoc, Nat.mul_assoc, ← Nat.mul_add, Nat.add_sub_cancel' hx.encloses.below]
    exact isNearlyMissed_of_multiple hk hlt (by omega) (by omega) hx.high

end NearMiss

/-- Of all whole numbers of 25 bits, one alone is nearly missed by a multiple of a decimal step that is no finer than
the binary one. -/
theorem DecimalGrid.isNearlyMissed {t : Nat} (ht : t < 254) {e : Int} {c m : Nat}
    (hstep : (2 ^ 29 - 1) * denominator t e ≤ 2 ^ 29 * numerator e) (hm : 0 < m) (hlt : m < 2 ^ 25)
    (h : NearMiss (numerator e) (denominator t e) c m) : IsNearlyMissed t m := by
  obtain ⟨k, rfl⟩ : ∃ k : Nat, e = leastExponent t + k := by
    have := leastExponent_le ht hstep
    exact ⟨(e - leastExponent t).toNat, by omega⟩
  have hfine := h.refine (denominator_pos _ _) (numerator_mul_denominator t k _) (denominator_pos t _)
  exact hfine.isNearlyMissed_of_separates (isSettled t ht).2 (denominator_pos _ _) hm hlt

end FieldLink
