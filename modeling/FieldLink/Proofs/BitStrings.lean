import FieldLink.Octets
import Mathlib.Data.List.Induction
import Mathlib.Data.Nat.Bitwise
import Mathlib.Tactic.Ring

/-!
# Numbers as strings of bits, most significant first

A string of a known length and the number that it spells are the same thing, a longer one is a shorter one
behind the bits of the quotient, and putting a number behind another in a word only appends its bits.
-/

namespace FieldLink

/-- The last `width` bits of a number. -/
def bitString : Nat → Nat → List Bool
  | 0, _ => []
  | width + 1, n => bitString width (n / 2) ++ [n.testBit 0]

def bitsValue (bits : List Bool) : Nat := bits.foldl (fun n bit => 2 * n + bit.toNat) 0

def octetBits (octets : Octets) : List Bool := octets.flatMap fun octet => bitString 8 octet.toNat

@[simp] theorem length_bitString (width n : Nat) : (bitString width n).length = width := by
  induction width generalizing n with
  | zero => rfl
  | succ width ih => rw [bitString, List.length_append, ih, List.length_singleton]

theorem bitString_append (front width n : Nat) :
    bitString (front + width) n = bitString front (n / 2 ^ width) ++ bitString width n := by
  induction width generalizing n with
  | zero => simp [bitString]
  | succ width ih => rw [← Nat.add_assoc, bitString, ih, bitString, List.append_assoc, Nat.div_div_eq_div_mul,
      Nat.pow_succ']

theorem bitString_mod (width n : Nat) : bitString width (n % 2 ^ width) = bitString width n := by
  induction width generalizing n with
  | zero => rfl
  | succ width ih =>
    have hhalf : n % 2 ^ (width + 1) / 2 = n / 2 % 2 ^ width := by
      rw [Nat.pow_succ', Nat.mod_mul_right_div_self]
    have hlast : (n % 2 ^ (width + 1)).testBit 0 = n.testBit 0 := by
      rw [Nat.testBit_mod_two_pow, decide_eq_true (Nat.succ_pos width), Bool.true_and]
    rw [bitString, bitString, hhalf, hlast, ih]

/-- The bits of a number in front of those of another. -/
theorem bitString_mul_add {front width n m : Nat} (h : m < 2 ^ width) :
    bitString (front + width) (n * 2 ^ width + m) = bitString front n ++ bitString width m := by
  have hquotient : (n * 2 ^ width + m) / 2 ^ width = n := by
    rw [Nat.add_comm, Nat.add_mul_div_right _ _ (Nat.two_pow_pos width), Nat.div_eq_of_lt h, Nat.zero_add]
  have hrest : (n * 2 ^ width + m) % 2 ^ width = m := by
    rw [Nat.mul_add_mod', Nat.mod_eq_of_lt h]
  rw [bitString_append, hquotient, ← bitString_mod width (n * 2 ^ width + m), hrest]

private theorem bitsValue_append_singleton (bits : List Bool) (bit : Bool) :
    bitsValue (bits ++ [bit]) = 2 * bitsValue bits + bit.toNat := by
  rw [bitsValue, List.foldl_append]
  rfl

private theorem bitsValue_bitString (width n : Nat) : bitsValue (bitString width n) = n % 2 ^ width := by
  induction width generalizing n with
  | zero => rw [Nat.pow_zero, Nat.mod_one]; rfl
  | succ width ih => rw [bitString, bitsValue_append_singleton, ih, Nat.toNat_testBit, Nat.pow_zero, Nat.div_one,
      Nat.pow_succ', Nat.mod_mul, Nat.add_comm]

theorem bitString_bitsValue (bits : List Bool) : bitString bits.length (bitsValue bits) = bits := by
  induction bits using List.reverseRecOn with
  | nil => rfl
  | append_singleton bits bit ih =>
    have hhalf : (2 * bitsValue bits + bit.toNat) / 2 = bitsValue bits := by
      have := bit.toNat_lt
      omega
    have hlast : (2 * bitsValue bits + bit.toNat).testBit 0 = bit := by
      cases bit <;> simp
    rw [List.length_append, List.length_singleton, bitsValue_append_singleton, bitString, hhalf, hlast, ih]

theorem bitsValue_lt (bits : List Bool) : bitsValue bits < 2 ^ bits.length := by
  rw [← bitString_bitsValue bits, bitsValue_bitString, length_bitString]
  exact Nat.mod_lt _ (Nat.two_pow_pos _)

theorem eq_zero_iff_of_lt {width n : Nat} (h : n < 2 ^ width) : n = 0 ↔ ∀ bit ∈ bitString width n, bit = false := by
  constructor
  · rintro rfl
    clear h
    induction width with
    | zero => exact fun bit hbit => nomatch hbit
    | succ width ih => simpa [bitString, or_imp, forall_and] using ih
  · intro hzeros
    have hreplicate : bitString width n = List.replicate width false :=
      List.eq_replicate_iff.mpr ⟨length_bitString width n, hzeros⟩
    have hzero : ∀ width, bitsValue (List.replicate width false) = 0 := by
      intro width
      induction width with
      | zero => rfl
      | succ width ih => rw [List.replicate_succ', bitsValue_append_singleton, ih]; rfl
    rw [← Nat.mod_eq_of_lt h, ← bitsValue_bitString, hreplicate, hzero]

theorem octetBits_append (a b : Octets) : octetBits (a ++ b) = octetBits a ++ octetBits b := List.flatMap_append

@[simp] theorem length_octetBits (octets : Octets) : (octetBits octets).length = 8 * octets.length := by
  induction octets with
  | nil => rfl
  | cons octet octets ih =>
    rw [octetBits, List.flatMap_cons, List.length_append, length_bitString, ← octetBits, ih, List.length_cons]
    ring

/-- Octets are known by their bits. -/
theorem octetBits_injective {a b : Octets} (h : octetBits a = octetBits b) : a = b := by
  induction a generalizing b with
  | nil =>
    have hlength := congrArg List.length h
    rw [length_octetBits, length_octetBits] at hlength
    exact (List.eq_nil_of_length_eq_zero (by simpa using hlength.symm)).symm
  | cons x a ih =>
    cases b with
    | nil =>
      have hlength := congrArg List.length h
      simp at hlength
    | cons y b =>
      obtain ⟨hfirst, hrest⟩ := List.append_inj (show bitString 8 x.toNat ++ octetBits a =
        bitString 8 y.toNat ++ octetBits b from h) (by rw [length_bitString, length_bitString])
      have hvalue := congrArg bitsValue hfirst
      rw [bitsValue_bitString, bitsValue_bitString, Nat.mod_eq_of_lt x.toNat_lt, Nat.mod_eq_of_lt y.toNat_lt] at hvalue
      rw [UInt8.toNat_inj.mp hvalue, ih hrest]

end FieldLink
