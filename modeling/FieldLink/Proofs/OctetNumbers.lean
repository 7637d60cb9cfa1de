import FieldLink.Octets
import Mathlib.Data.List.Induction

/-!
# Octet strings as numbers

Octet strings of one length and the numbers below a power of 256 determine each other.
-/

namespace FieldLink.Octets

theorem toNat_lt (octets : Octets) : toNat octets < 256 ^ octets.length := by
  induction octets using List.reverseRecOn with
  | nil => simp [toNat]
  | append_singleton octets octet ih =>
    have hoctet := octet.toNat_lt
    rw [toNat_append_singleton, List.length_append, List.length_singleton, Nat.pow_succ]
    omega

/-- Octets are written back from their number. -/
theorem bigEndian_toNat (octets : Octets) : bigEndian octets.length (toNat octets) = octets := by
  induction octets using List.reverseRecOn with
  | nil => rfl
  | append_singleton octets octet ih =>
    have hoctet := octet.toNat_lt
    have hhigh : (toNat octets * 256 + octet.toNat) / 256 = toNat octets := by omega
    have hlow : UInt8.ofNat (toNat octets * 256 + octet.toNat) = octet := by
      apply UInt8.toNat_inj.1
      rw [UInt8.toNat_ofNat']
      omega
    rw [List.length_append, List.length_singleton, bigEndian, toNat_append_singleton, hhigh, hlow, ih]

theorem eq_of_toNat_eq {octets other : Octets} (hlength : octets.length = other.length)
    (h : toNat octets = toNat other) : octets = other := by
  rw [← bigEndian_toNat octets, h, hlength, bigEndian_toNat]

end FieldLink.Octets
