import FieldLink.Gcm
import Mathlib.FieldTheory.Finite.Extension
import Mathlib.RingTheory.AdjoinRoot

/-!
# The field of the polynomial hash

The blocks of the polynomial hash are the field of `2 ^ 128` elements. The bits of a block, from the most
significant one on, are the coefficients of a polynomial; `multiply` is multiplication of these polynomials
modulo one that is irreducible, so that a factor other than zero cancels.
-/

namespace FieldLink.Gcm

open Polynomial

section Polynomials

variable {K : Type} [Field K]

/-- The polynomial by which products are reduced. -/
noncomputable def modulus (K : Type) [Field K] : K[X] := X ^ 128 + (X ^ 7 + X ^ 2 + X + 1)

private theorem monic_modulus : (modulus K).Monic := by
  unfold modulus
  apply monic_X_pow_add
  compute_degree!

private theorem natDegree_modulus : (modulus K).natDegree = 128 := by
  unfold modulus
  compute_degree!

def coefficient (K : Type) [Field K] (bit : Bool) : K := if bit then 1 else 0

@[simp]
private theorem coefficient_true : coefficient K true = 1 := rfl

@[simp]
private theorem coefficient_false : coefficient K false = 0 := rfl

private theorem coefficient_injective {a b : Bool} (h : coefficient K a = coefficient K b) : a = b := by
  cases a <;> cases b <;> simp_all

private theorem coefficient_xor [CharP K 2] (a b : Bool) :
    coefficient K (a ^^ b) = coefficient K a + coefficient K b := by
  cases a <;> cases b <;> simp [CharTwo.add_self_eq_zero]

/-- The lowest `bits` bits of a block as a polynomial, the most significant of them first. `multiplyBits` takes the
bits in the same order. -/
noncomputable def lowBits (K : Type) [Field K] (x : BitVec 128) : Nat → K[X]
  | 0 => 0
  | bits + 1 => C (coefficient K (x.getLsbD bits)) + X * lowBits K x bits

private theorem coeff_lowBits (x : BitVec 128) (bits i : Nat) :
    (lowBits K x bits).coeff i = if i < bits then coefficient K (x.getLsbD (bits - 1 - i)) else 0 := by
  induction bits generalizing i with
  | zero => simp [lowBits]
  | succ bits ih =>
    cases i with
    | zero => simp [lowBits]
    | succ i =>
      have hplace : bits + 1 - 1 - (i + 1) = bits - 1 - i := by omega
      rw [lowBits, coeff_add, coeff_C_succ, zero_add, coeff_X_mul, ih, hplace]
      simp only [Nat.add_lt_add_iff_right]

noncomputable def polynomial (K : Type) [Field K] (x : BitVec 128) : K[X] := lowBits K x 128

private theorem coeff_polynomial (x : BitVec 128) (i : Nat) :
    (polynomial K x).coeff i = coefficient K (x.getMsbD i) := by
  rw [polynomial, coeff_lowBits, BitVec.getMsbD]
  by_cases hi : i < 128
  · rw [if_pos hi, decide_eq_true hi, Bool.true_and]
  · rw [if_neg hi, decide_eq_false hi, Bool.false_and, coefficient_false]

private theorem polynomial_xor [CharP K 2] (x y : BitVec 128) :
    polynomial K (x ^^^ y) = polynomial K x + polynomial K y := by
  ext i
  rw [coeff_add, coeff_polynomial, coeff_polynomial, coeff_polynomial, BitVec.getMsbD_xor, coefficient_xor]

private theorem polynomial_injective {x y : BitVec 128} (h : polynomial K x = polynomial K y) : x = y := by
  apply BitVec.eq_of_getMsbD_eq
  intro i hi
  apply coefficient_injective (K := K)
  rw [← coeff_polynomial, ← coeff_polynomial, h]

private theorem degree_polynomial_lt (x : BitVec 128) : (polynomial K x).degree < (modulus K).degree := by
  rw [degree_eq_natDegree monic_modulus.ne_zero, natDegree_modulus, degree_lt_iff_coeff_zero]
  intro i hi
  rw [coeff_polynomial, BitVec.getMsbD, decide_eq_false (Nat.not_lt.mpr hi), Bool.false_and, coefficient_false]

/-- A block shifted by one is its polynomial times `X`, but for the coefficient that falls out. -/
theorem X_mul_polynomial (x : BitVec 128) :
    X * polynomial K x = polynomial K (x >>> 1) + C (coefficient K (x.getLsbD 0)) * X ^ 128 := by
  ext i
  rw [coeff_add, coeff_C_mul_X_pow, coeff_polynomial, BitVec.getMsbD_ushiftRight]
  cases i with
  | zero => simp
  | succ i =>
    rw [coeff_X_mul, coeff_polynomial, Nat.add_sub_cancel, BitVec.getMsbD]
    rcases Nat.lt_trichotomy i 127 with hlt | rfl | hgt
    · simp [show i < 128 by omega, show i + 1 < 128 by omega, show ¬i + 1 = 128 by omega]
    · simp
    · simp [show ¬i < 128 by omega, show ¬i + 1 < 128 by omega, show ¬i + 1 = 128 by omega]

private theorem polynomial_eq_of_places {x : BitVec 128} (places : List Nat) {p : K[X]}
    (hbits : ∀ i < 128, x.getMsbD i = decide (i ∈ places)) (hplaces : ∀ i ∈ places, i < 128)
    (hp : ∀ i, p.coeff i = coefficient K (decide (i ∈ places))) : polynomial K x = p := by
  ext i
  rw [coeff_polynomial, hp]
  by_cases hi : i < 128
  · rw [hbits i hi]
  · have hout : i ∉ places := fun hmem => hi (hplaces i hmem)
    rw [decide_eq_false hout, BitVec.getMsbD, decide_eq_false hi, Bool.false_and]

private theorem polynomial_one : polynomial K 0x80000000000000000000000000000000 = 1 := by
  refine polynomial_eq_of_places [0] (by decide +kernel) (by decide) fun i => ?_
  simp [coeff_one, coefficient]

private theorem polynomial_reduction :
    polynomial K 0xE1000000000000000000000000000000 = X ^ 7 + X ^ 2 + X + 1 := by
  refine polynomial_eq_of_places [7, 2, 1, 0] (by decide +kernel) (by decide) fun i => ?_
  simp only [coeff_add, coeff_X_pow, coeff_X, coeff_one, eq_comm (a := 1) (b := i), List.mem_cons, List.not_mem_nil,
    or_false]
  split_ifs <;> simp_all

/-- The class of a block among the remainders of the reduction. -/
noncomputable def value (K : Type) [Field K] (x : BitVec 128) : AdjoinRoot (modulus K) :=
  AdjoinRoot.mk (modulus K) (polynomial K x)

private theorem eq_of_mk_eq {f p q : K[X]} (hp : p.degree < f.degree) (hq : q.degree < f.degree)
    (h : AdjoinRoot.mk f p = AdjoinRoot.mk f q) : p = q := by
  have hdegree : (p - q).degree < f.degree := lt_of_le_of_lt (degree_sub_le p q) (max_lt hp hq)
  exact sub_eq_zero.mp (eq_zero_of_dvd_of_degree_lt (AdjoinRoot.mk_eq_mk.mp h) hdegree)

theorem value_injective {x y : BitVec 128} (h : value K x = value K y) : x = y :=
  polynomial_injective (eq_of_mk_eq (degree_polynomial_lt x) (degree_polynomial_lt y) h)

private theorem value_one : value K 0x80000000000000000000000000000000 = 1 := by
  rw [value, polynomial_one, map_one]

variable [CharP K 2]

private theorem value_xor (x y : BitVec 128) : value K (x ^^^ y) = value K x + value K y := by
  rw [value, polynomial_xor, map_add, value, value]

private theorem value_zero : value K 0 = 0 := by
  have hdouble := value_xor (K := K) 0 0
  rw [BitVec.xor_self] at hdouble
  exact add_eq_left.mp hdouble.symm

theorem X_mul_polynomial_eq_double (x : BitVec 128) :
    X * polynomial K x = polynomial K (double x) + C (coefficient K (x.getLsbD 0)) * modulus K := by
  rw [X_mul_polynomial, double]
  cases x.getLsbD 0 with
  | false => simp
  | true =>
    have hmodulus : modulus K = X ^ 128 + polynomial K 0xE1000000000000000000000000000000 := by
      unfold modulus
      rw [polynomial_reduction]
    have htwice := CharTwo.add_self_eq_zero (polynomial K 0xE1000000000000000000000000000000)
    rw [if_pos rfl, polynomial_xor, coefficient_true, C_1, one_mul, one_mul, hmodulus, add_add_add_comm,
      htwice, add_zero]

theorem value_double (x : BitVec 128) : value K (double x) = AdjoinRoot.root (modulus K) * value K x := by
  have hmk := congrArg (AdjoinRoot.mk (modulus K)) (X_mul_polynomial_eq_double x)
  rw [map_mul, map_add, map_mul, AdjoinRoot.mk_X, AdjoinRoot.mk_self, mul_zero, add_zero] at hmk
  exact hmk.symm

theorem value_multiplyBits (x : BitVec 128) (bits : Nat) (y sum : BitVec 128) :
    value K (multiplyBits x bits y sum) =
      value K sum + AdjoinRoot.mk (modulus K) (lowBits K x bits) * value K y := by
  induction bits generalizing y sum with
  | zero => simp [multiplyBits, lowBits]
  | succ bits ih =>
    have hsum : value K (if x.getLsbD bits then sum ^^^ y else sum) =
        value K sum + AdjoinRoot.mk (modulus K) (C (coefficient K (x.getLsbD bits))) * value K y := by
      cases x.getLsbD bits with
      | false => simp
      | true => simp [value_xor]
    rw [multiplyBits, ih, hsum, value_double, lowBits, map_add, map_mul, AdjoinRoot.mk_X]
    ring

theorem value_multiply (x y : BitVec 128) : value K (multiply x y) = value K x * value K y := by
  rw [multiply, value_multiplyBits, value_zero, zero_add, ← polynomial, ← value]

end Polynomials

def squared : Nat → BitVec 128
  | 0 => 0x40000000000000000000000000000000
  | n + 1 => multiply (squared n) (squared n)

section Irreducibility

variable {K : Type} [Field K]

section

variable [CharP K 2]

private theorem value_squared (n : Nat) : value K (squared n) = AdjoinRoot.root (modulus K) ^ 2 ^ n := by
  induction n with
  | zero =>
    have hgenerator : squared 0 = double 0x80000000000000000000000000000000 := by decide
    rw [hgenerator, value_double, value_one, mul_one, pow_zero, pow_one]
  | succ n ih => rw [squared, value_multiply, ih, ← pow_add, ← two_mul, ← pow_succ']

theorem modulus_dvd_sub {n : Nat} (hback : squared n = squared 0) : modulus K ∣ X ^ 2 ^ n - X := by
  rw [← AdjoinRoot.mk_eq_mk, map_pow, AdjoinRoot.mk_X, ← value_squared, hback, value_squared, pow_zero, pow_one]

private theorem modulus_dvd_unit {n : Nat} {u : BitVec 128}
    (hunit : multiply u (squared n ^^^ squared 0) = 0x80000000000000000000000000000000) :
    modulus K ∣ polynomial K u * (X ^ 2 ^ n - X) - 1 := by
  have hvalue := congrArg (value K) hunit
  rw [value_multiply, value_xor, value_squared, value_squared, value_one, pow_zero, pow_one, value] at hvalue
  rw [← AdjoinRoot.mk_eq_mk, CharTwo.sub_eq_add, map_mul, map_add, map_pow, AdjoinRoot.mk_X, map_one, hvalue]

end

variable [Finite K]

/-- Rabin's test, for a degree that is a power of two: the root of a polynomial lies in the field of that degree and
not in the one of half the degree. -/
theorem irreducible_of_dvd {f u : K[X]} {n : Nat} (hcard : Nat.card K = 2) (hdegree : f.natDegree = 2 ^ (n + 1))
    (hwhole : f ∣ X ^ 2 ^ 2 ^ (n + 1) - X) (hhalf : f ∣ u * (X ^ 2 ^ 2 ^ n - X) - 1) : Irreducible f := by
  have hpos : 0 < f.natDegree := hdegree ▸ Nat.two_pow_pos _
  have hne : f ≠ 0 := ne_zero_of_natDegree_gt hpos
  obtain ⟨q, hq, hdvd⟩ := WfDvdMonoid.exists_irreducible_factor (not_isUnit_of_natDegree_pos f hpos) hne
  have hin : q.natDegree ∣ 2 ^ (n + 1) := by
    rw [hq.natDegree_dvd_iff_dvd_X_pow_card_pow_sub_X, hcard]
    exact hdvd.trans hwhole
  have hout : ¬q.natDegree ∣ 2 ^ n := by
    rw [hq.natDegree_dvd_iff_dvd_X_pow_card_pow_sub_X, hcard]
    intro hroot
    exact hq.not_isUnit (isUnit_of_dvd_one ((dvd_sub_right (hroot.mul_left u)).mp (hdvd.trans hhalf)))
  obtain ⟨k, hk, hpower⟩ := (Nat.dvd_prime_pow Nat.prime_two).mp hin
  have hfull : k = n + 1 := by
    by_contra hless
    apply hout
    rw [hpower]
    exact Nat.pow_dvd_pow 2 (by omega)
  have hassociated : Associated q f :=
    associated_of_dvd_of_natDegree_le hdvd hne (by rw [hdegree, hpower, hfull])
  exact hassociated.irreducible hq

/-- The generator comes back after it is squared 128 times; after 64 times it differs from itself by a unit. -/
theorem irreducible_modulus [CharP K 2] (hcard : Nat.card K = 2) : Irreducible (modulus K) := by
  have hwhole : squared (2 ^ 7) = squared 0 := by decide +kernel
  have hhalf : multiply 0x180da934bf53158251c13dbb149f5279 (squared (2 ^ 6) ^^^ squared 0) =
      0x80000000000000000000000000000000 := by decide +kernel
  exact irreducible_of_dvd hcard natDegree_modulus (modulus_dvd_sub hwhole) (modulus_dvd_unit hhalf)

end Irreducibility

/-- A factor other than zero cancels. -/
theorem multiply_right_cancel {x y key : BitVec 128} (hkey : key ≠ 0) (h : multiply x key = multiply y key) :
    x = y := by
  have hfield : Fact (Irreducible (modulus (ZMod 2))) := ⟨irreducible_modulus (Nat.card_zmod 2)⟩
  have hvalue : value (ZMod 2) key ≠ 0 := by
    rw [← value_zero]
    exact fun heq => hkey (value_injective heq)
  apply value_injective (K := ZMod 2)
  apply mul_right_cancel₀ hvalue
  rw [← value_multiply, ← value_multiply, h]

end FieldLink.Gcm
