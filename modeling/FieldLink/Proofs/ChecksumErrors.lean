import FieldLink.Checksum
import FieldLink.Proofs.OctetNumbers
import Mathlib.Logic.Function.Basic

/-!
# Errors that the CRC never misses

A step of the division is a linear permutation of the registers, so whatever follows an error cannot undo it;
and as long as no more octets came in than the register has room for, different octets lead to different
registers.
-/

namespace FieldLink.Checksum

private theorem getLsbD_shift (register : BitVec 32) (i : Nat) :
    (shift register).getLsbD i = (register.getLsbD (i + 1) ^^ (register.getLsbD 0 && generator.getLsbD i)) := by
  rw [shift]
  cases register.getLsbD 0 <;> simp [Nat.add_comm]

private theorem shift_xor (a b : BitVec 32) : shift (a ^^^ b) = shift a ^^^ shift b := by
  apply BitVec.eq_of_getLsbD_eq
  intro i _
  simp only [BitVec.getLsbD_xor, getLsbD_shift, Bool.and_xor_distrib_right]
  rw [Bool.xor_assoc, Bool.xor_assoc, Bool.xor_left_comm (b.getLsbD (i + 1))]

/-- The bit that fell out is found in the top place, where the generator has a one; with it the others are found. -/
theorem shift_injective : Function.Injective shift := by
  intro a b h
  have hplaces (i : Nat) : (shift a).getLsbD i = (shift b).getLsbD i := by rw [h]
  simp only [getLsbD_shift] at hplaces
  have hfirst : a.getLsbD 0 = b.getLsbD 0 := by simpa [generator] using hplaces 31
  apply BitVec.eq_of_getLsbD_eq
  rintro (_ | i) _
  · exact hfirst
  · have hnext := hplaces i
    rw [hfirst] at hnext
    exact Bool.xor_left_inj.mp hnext

private theorem shifts_xor (n : Nat) (a b : BitVec 32) : shifts n (a ^^^ b) = shifts n a ^^^ shifts n b := by
  induction n generalizing a b with
  | zero => rfl
  | succ n ih => simp only [shifts, shift_xor, ih]

private theorem shifts_add (m n : Nat) (register : BitVec 32) :
    shifts (m + n) register = shifts n (shifts m register) := by
  induction m generalizing register with
  | zero => rw [Nat.zero_add, shifts]
  | succ m ih => rw [Nat.succ_add, shifts, ih, shifts]

private theorem shifts_injective (n : Nat) : Function.Injective (shifts n) := by
  induction n with
  | zero => exact fun _ _ h => h
  | succ n ih => exact fun _ _ h => shift_injective (ih h)

private theorem feed_injective (octet : UInt8) : Function.Injective fun register => feed register octet := by
  intro a b h
  exact (BitVec.xor_left_inj _).mp (shifts_injective 8 h)

theorem run_injective (octets : Octets) : Function.Injective fun register => run register octets := by
  induction octets with
  | nil => exact fun _ _ h => h
  | cons octet octets ih => exact fun _ _ h => feed_injective octet (ih h)

private theorem shift_double {n : Nat} (h : n * 2 < 2 ^ 32) : shift (BitVec.ofNat 32 (n * 2)) = BitVec.ofNat 32 n := by
  have hfirst : (BitVec.ofNat 32 (n * 2)).getLsbD 0 = false := by
    rw [BitVec.getLsbD_ofNat, Nat.testBit_zero]
    simp
  rw [shift, hfirst, if_neg Bool.false_ne_true]
  apply BitVec.eq_of_toNat_eq
  rw [BitVec.toNat_ushiftRight, BitVec.toNat_ofNat, BitVec.toNat_ofNat, Nat.mod_eq_of_lt h, Nat.shiftRight_eq_div_pow]
  omega

private theorem shifts_mul_two_pow {k n : Nat} (h : n * 2 ^ k < 2 ^ 32) :
    shifts k (BitVec.ofNat 32 (n * 2 ^ k)) = BitVec.ofNat 32 n := by
  induction k with
  | zero => rw [Nat.pow_zero, Nat.mul_one, shifts]
  | succ k ih =>
    rw [Nat.pow_succ, ← Nat.mul_assoc] at h ⊢
    rw [shifts, shift_double h, ih (by omega)]

private theorem octet_xor_high (octet : UInt8) (n : Nat) :
    octet.toBitVec.setWidth 32 ^^^ BitVec.ofNat 32 (n * 2 ^ 8) = BitVec.ofNat 32 (n * 2 ^ 8 + octet.toNat) := by
  apply BitVec.eq_of_getLsbD_eq
  intro i hi
  have hplace : (n * 2 ^ 8 + octet.toNat).testBit i = if i < 8 then octet.toNat.testBit i else n.testBit (i - 8) := by
    rw [Nat.mul_comm]
    exact Nat.testBit_two_pow_mul_add n octet.toNat_lt i
  simp only [BitVec.getLsbD_xor, BitVec.getLsbD_setWidth, BitVec.getLsbD_ofNat, Nat.testBit_mul_two_pow, hplace, hi,
    decide_true, Bool.true_and]
  by_cases hlow : i < 8
  · rw [if_pos hlow, decide_eq_false (Nat.not_le.mpr hlow), Bool.false_and, Bool.xor_false]
    rfl
  · rw [if_neg hlow, decide_eq_true (Nat.not_lt.mp hlow), Bool.true_and, BitVec.getLsbD_of_ge _ _ (Nat.not_lt.mp hlow),
      Bool.false_xor]

private theorem toNat_reverse_lt {octets : Octets} {n : Nat} (h : octets.length ≤ n) :
    Octets.toNat octets.reverse < 256 ^ n := by
  have hlt := Octets.toNat_lt octets.reverse
  rw [List.length_reverse] at hlt
  exact Nat.lt_of_lt_of_le hlt (Nat.pow_le_pow_right (by decide) h)

/-- Octets that fit the register are divided out together, as one number whose least significant octet is the first. -/
theorem run_eq_shifts {octets : Octets} (h : octets.length ≤ 4) (register : BitVec 32) :
    run register octets =
      shifts (8 * octets.length) (register ^^^ BitVec.ofNat 32 (Octets.toNat octets.reverse)) := by
  induction octets generalizing register with
  | nil => simp [run, shifts, Octets.toNat]
  | cons octet octets ih =>
    have hrest : octets.length ≤ 3 := Nat.le_of_succ_le_succ h
    have hroom : Octets.toNat octets.reverse * 2 ^ 8 < 2 ^ 32 := by
      have := toNat_reverse_lt hrest
      omega
    have hbits : 8 * (octets.length + 1) = 8 + 8 * octets.length := by omega
    calc run register (octet :: octets)
      _ = shifts (8 * octets.length) (feed register octet ^^^ BitVec.ofNat 32 (Octets.toNat octets.reverse)) :=
        ih (by omega) (feed register octet)
      _ = shifts (8 * octets.length) (shifts 8 (register ^^^ octet.toBitVec.setWidth 32) ^^^
            shifts 8 (BitVec.ofNat 32 (Octets.toNat octets.reverse * 2 ^ 8))) := by
        rw [shifts_mul_two_pow hroom, feed]
      _ = shifts (8 + 8 * octets.length) (register ^^^
            BitVec.ofNat 32 (Octets.toNat octets.reverse * 2 ^ 8 + octet.toNat)) := by
        rw [← shifts_xor, ← shifts_add, BitVec.xor_assoc, octet_xor_high]
      _ = _ := by
        rw [List.reverse_cons, Octets.toNat_append_singleton, List.length_cons, hbits]

theorem eq_of_run_eq {a b : Octets} (hlength : a.length = b.length) (hfour : a.length ≤ 4) {register : BitVec 32}
    (h : run register a = run register b) : a = b := by
  have hother : b.length ≤ 4 := hlength ▸ hfour
  rw [run_eq_shifts hfour, run_eq_shifts hother, ← hlength] at h
  have hword := congrArg BitVec.toNat ((BitVec.xor_right_inj _).mp (shifts_injective _ h))
  rw [BitVec.toNat_ofNat, BitVec.toNat_ofNat, Nat.mod_eq_of_lt (toNat_reverse_lt hfour),
    Nat.mod_eq_of_lt (toNat_reverse_lt hother)] at hword
  refine List.reverse_inj.mp (Octets.eq_of_toNat_eq ?_ hword)
  rw [List.length_reverse, List.length_reverse, hlength]

private theorem crc32_inj {a b : Octets} :
    crc32 a = crc32 b ↔ run (BitVec.allOnes 32) a = run (BitVec.allOnes 32) b := by
  rw [crc32, crc32, UInt32.ofBitVec.injEq, BitVec.not_inj]

theorem crc32_window_ne (front back : Octets) {a b : Octets} (hlength : a.length = b.length) (hfour : a.length ≤ 4)
    (hne : a ≠ b) : crc32 (front ++ a ++ back) ≠ crc32 (front ++ b ++ back) := by
  rw [Ne, crc32_inj, run_append, run_append, run_append, run_append]
  exact fun h => hne (eq_of_run_eq hlength hfour (run_injective back h))

theorem verify_eq_false_iff {expected : UInt32} {octets : Octets} :
    verify expected octets = false ↔ expected ≠ crc32 octets := by
  rw [verify, beq_eq_false_iff_ne, ne_comm]

/-- Octets in which up to four on end were changed have another CRC than before, however many there are and wherever
the change is; in particular a change of a single one is seen. -/
theorem local_error_detected :
    (∀ front back a b : Octets, a.length = b.length → a.length ≤ 4 → a ≠ b →
      crc32 (front ++ a ++ back) ≠ crc32 (front ++ b ++ back) ∧
      verify (crc32 (front ++ a ++ back)) (front ++ b ++ back) = false) ∧
    ∀ (data : Octets) (i : Nat) (octet : UInt8) (hi : i < data.length), data[i] ≠ octet →
      verify (crc32 data) (data.set i octet) = false := by
  constructor
  · intro front back a b hlength hfour hne
    have hcrc := crc32_window_ne front back hlength hfour hne
    exact ⟨hcrc, verify_eq_false_iff.mpr hcrc⟩
  · intro data i octet hi hne
    have hsplit : data = data.take i ++ [data[i]] ++ data.drop (i + 1) := by simp
    have hset : data.set i octet = data.take i ++ [octet] ++ data.drop (i + 1) := by
      rw [List.set_eq_take_append_cons_drop, if_pos hi, List.append_assoc]
      rfl
    have hcrc := crc32_window_ne (data.take i) (data.drop (i + 1)) (show [data[i]].length = [octet].length from rfl)
      (by simp) (by simpa using hne)
    rw [← hsplit, ← hset] at hcrc
    exact verify_eq_false_iff.mpr hcrc

/-- In a payload with the reading 21.5 the number gives way to four other octets, or one of its digits to another. -/
theorem local_error_detected_reading :
    let front : Octets := [0x7B, 0x22, 0x74, 0x22, 0x3A]
    let reading : Octets := [0x32, 0x31, 0x2E, 0x35]
    let damaged : Octets := [0x22, 0x4E, 0x61, 0x4E]
    crc32 (front ++ reading ++ [0x7D]) ≠ crc32 (front ++ damaged ++ [0x7D]) ∧
    verify (crc32 (front ++ reading ++ [0x7D])) (front ++ damaged ++ [0x7D]) = false ∧
    verify (crc32 reading) (reading.set 3 0x36) = false := by
  intro front reading damaged
  obtain ⟨hwindow, hsingle⟩ := local_error_detected
  obtain ⟨hcrc, hverify⟩ := hwindow front [0x7D] reading damaged rfl (by decide) (by decide)
  exact ⟨hcrc, hverify, hsingle reading 3 0x36 (by decide) (by decide)⟩

-- Five octets are one too many: these two strings differ by the generator itself.
example : crc32 [0, 0, 0, 0, 0] = crc32 [0x41, 0x06, 0x71, 0xDB, 0x01] := by decide +kernel

end FieldLink.Checksum
