/-!
# Upper and lower case

Only the letters of ASCII have the other case, thirty-two places away.
-/

namespace FieldLink

theorem toNat_toLower (c : Char) :
    c.toLower.toNat = if 65 ≤ c.toNat ∧ c.toNat ≤ 90 then c.toNat + 32 else c.toNat := by
  have hrange : (c.val ≥ 'A'.val ∧ c.val ≤ 'Z'.val) ↔ 65 ≤ c.toNat ∧ c.toNat ≤ 90 := Iff.rfl
  delta Char.toLower
  split
  · next hupper =>
    have hle : c.val.toNat ≤ 90 := (hrange.mp hupper).2
    rw [if_pos (hrange.mp hupper)]
    show (c.val + 32).toNat = c.val.toNat + 32
    rw [UInt32.toNat_add]
    simp only [UInt32.reduceToNat]
    omega
  · next hother => rw [if_neg (mt hrange.mpr hother)]

theorem toNat_toUpper (c : Char) :
    c.toUpper.toNat = if 97 ≤ c.toNat ∧ c.toNat ≤ 122 then c.toNat - 32 else c.toNat := by
  have hrange : ('a'.val ≤ c.val ∧ c.val ≤ 'z'.val) ↔ 97 ≤ c.toNat ∧ c.toNat ≤ 122 := Iff.rfl
  delta Char.toUpper
  split
  · next hlower =>
    have hle : 97 ≤ c.val.toNat ∧ c.val.toNat ≤ 122 := hrange.mp hlower
    rw [if_pos (hrange.mp hlower)]
    show (c.val + ('A'.val - 'a'.val)).toNat = c.val.toNat - 32
    rw [UInt32.toNat_add]
    simp only [UInt32.reduceToNat, Char.reduceVal, UInt32.reduceSub]
    omega
  · next hother => rw [if_neg (mt hrange.mpr hother)]

theorem toLower_eq_toLower_iff (c d : Char) : c.toLower = d.toLower ↔ d = c ∨ d = c.toLower ∨ d = c.toUpper := by
  simp only [← Char.toNat_inj, toNat_toLower, toNat_toUpper]
  split <;> split <;> split <;> omega

end FieldLink
