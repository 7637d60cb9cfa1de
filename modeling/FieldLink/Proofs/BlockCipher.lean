import FieldLink.Aes
import Mathlib.Data.Fintype.EquivFin

/-!
# Encryption of a block as a permutation

Encryption of a block is a permutation of the blocks, whatever the key: two blocks that are encrypted alike are
one. Every step of a round is followed back, the mixing of a column by the sums of its octets.
-/

namespace FieldLink.Aes

def bitsOf (octets : Octets) : Nat := octets.foldr (fun octet rest => 2 ^ octet.toNat ||| rest) 0

private theorem testBit_bitsOf (octets : Octets) (b : UInt8) : (bitsOf octets).testBit b.toNat = true ↔ b ∈ octets := by
  induction octets with
  | nil => simp [bitsOf]
  | cons octet octets ih =>
    have hbits : bitsOf (octet :: octets) = 2 ^ octet.toNat ||| bitsOf octets := rfl
    rw [hbits, Nat.testBit_or, Bool.or_eq_true, ih, Nat.testBit_two_pow, decide_eq_true_eq, UInt8.toNat_inj,
      List.mem_cons, eq_comm]

private theorem length_substitutionTable : substitutionTable.toList.length = 256 := by decide +kernel

/-- Every octet stands in the table, so that none stands there twice. -/
theorem substitute_injective : Function.Injective substitute := by
  have hfinite : Finite UInt8 := Finite.of_injective UInt8.toFin fun _ _ => UInt8.toFin_inj.mp
  have hbits : bitsOf substitutionTable.toList = 2 ^ 256 - 1 := by decide +kernel
  apply Finite.injective_iff_surjective.mpr
  intro b
  have hmem : b ∈ substitutionTable.toList := by
    rw [← testBit_bitsOf, hbits, Nat.testBit_two_pow_sub_one]
    exact decide_eq_true b.toNat_lt
  obtain ⟨i, hi, rfl⟩ := List.getElem_of_mem hmem
  have hsize : i < 2 ^ 8 := by rwa [length_substitutionTable] at hi
  refine ⟨UInt8.ofNat i, ?_⟩
  rw [substitute, UInt8.toNat_ofNat_of_lt' hsize, Array.getD_eq_getD_getElem?, ← Array.getElem?_toList,
    List.getElem?_eq_getElem hi, Option.getD_some]

namespace Word

private theorem xor_left_injective (key : Word) : Function.Injective fun w => xor w key := by
  rintro ⟨⟩ ⟨⟩ h
  simpa only [xor, mk.injEq, UInt8.xor_left_inj] using h

private theorem map_injective {f : UInt8 → UInt8} (hf : Function.Injective f) : Function.Injective (map f) := by
  rintro ⟨⟩ ⟨⟩ h
  simpa only [map, mk.injEq, hf.eq_iff] using h

private theorem and_xor (a b mask : UInt8) : (a ^^^ b) &&& mask = (a &&& mask) ^^^ (b &&& mask) := by
  apply UInt8.toBitVec_inj.mp
  ext i hi
  simp [Bool.and_xor_distrib_right]

private theorem and_high_cases (b : UInt8) : b &&& 0x80 = 0 ∨ b &&& 0x80 = 0x80 := by
  have hall : ∀ n < 2 ^ 8, UInt8.ofNat n &&& 0x80 = 0 ∨ UInt8.ofNat n &&& 0x80 = 0x80 := by decide +kernel
  have hb := hall b.toNat b.toNat_lt
  rwa [UInt8.ofNat_toNat] at hb

theorem xor_left_comm (a b c : UInt8) : a ^^^ (b ^^^ c) = b ^^^ (a ^^^ c) := by ac_rfl

theorem xor_xor_cancel (a b : UInt8) : a ^^^ (a ^^^ b) = b := by
  rw [← UInt8.xor_assoc, UInt8.xor_self, UInt8.zero_xor]

private theorem double_xor (a b : UInt8) : double (a ^^^ b) = double a ^^^ double b := by
  rw [double, double, double, and_xor, UInt8.shiftLeft_xor]
  rcases and_high_cases a with ha | ha <;> rcases and_high_cases b with hb | hb
  all_goals
    rw [ha, hb]
    simp [UInt8.xor_assoc, UInt8.xor_comm, xor_left_comm]

def total (w : Word) : UInt8 := w.b0 ^^^ w.b1 ^^^ w.b2 ^^^ w.b3

private theorem total_mix (w : Word) : w.mix.total = w.total := by
  simp only [total, mix, double_xor, UInt8.xor_assoc, UInt8.xor_comm, xor_left_comm, xor_xor_cancel, UInt8.xor_self,
    UInt8.xor_zero]

private theorem mix_b0_xor_b2 (w : Word) : w.mix.b0 ^^^ w.mix.b2 = w.b0 ^^^ w.b2 ^^^ double w.total := by
  simp only [total, mix, double_xor, UInt8.xor_assoc, UInt8.xor_comm, xor_left_comm, xor_xor_cancel, UInt8.xor_self,
    UInt8.xor_zero]

private theorem mix_b1_xor_b3 (w : Word) : w.mix.b1 ^^^ w.mix.b3 = w.b1 ^^^ w.b3 ^^^ double w.total := by
  simp only [total, mix, double_xor, UInt8.xor_assoc, UInt8.xor_comm, xor_left_comm, xor_xor_cancel, UInt8.xor_self,
    UInt8.xor_zero]

private theorem mix_b0_xor_b1 (w : Word) : w.mix.b0 ^^^ w.mix.b1 = w.b0 ^^^ w.b1 ^^^ double (w.b0 ^^^ w.b2) := by
  simp only [mix, double_xor, UInt8.xor_assoc, UInt8.xor_comm, xor_left_comm, xor_xor_cancel, UInt8.xor_self,
    UInt8.xor_zero]

private theorem mix_b0 (w : Word) : w.mix.b0 = w.b0 ^^^ w.total ^^^ double (w.b0 ^^^ w.b1) := rfl

/-- The sums of a mixed column are found from the largest to the smallest, and the octets from them. -/
theorem mix_injective : Function.Injective mix := by
  intro w v h
  have htotal : w.total = v.total := by rw [← total_mix w, h, total_mix]
  have heven : w.b0 ^^^ w.b2 = v.b0 ^^^ v.b2 := by
    have hmixed := mix_b0_xor_b2 w
    rwa [h, mix_b0_xor_b2, htotal, UInt8.xor_left_inj, eq_comm] at hmixed
  have hodd : w.b1 ^^^ w.b3 = v.b1 ^^^ v.b3 := by
    have hmixed := mix_b1_xor_b3 w
    rwa [h, mix_b1_xor_b3, htotal, UInt8.xor_left_inj, eq_comm] at hmixed
  have hfirst : w.b0 ^^^ w.b1 = v.b0 ^^^ v.b1 := by
    have hmixed := mix_b0_xor_b1 w
    rwa [h, mix_b0_xor_b1, heven, UInt8.xor_left_inj, eq_comm] at hmixed
  have h0 : w.b0 = v.b0 := by
    have hmixed := mix_b0 w
    rwa [h, mix_b0, htotal, hfirst, UInt8.xor_left_inj, UInt8.xor_left_inj, eq_comm] at hmixed
  have h1 : w.b1 = v.b1 := by rwa [h0, UInt8.xor_right_inj] at hfirst
  have h2 : w.b2 = v.b2 := by rwa [h0, UInt8.xor_right_inj] at heven
  have h3 : w.b3 = v.b3 := by rwa [h1, UInt8.xor_right_inj] at hodd
  cases w
  cases v
  rw [mk.injEq]
  exact ⟨h0, h1, h2, h3⟩

private theorem toOctets_ofOctets {octets : Octets} (h : 4 ≤ octets.length) :
    (ofOctets octets).toOctets = octets.take 4 := by
  match octets, h with
  | _ :: _ :: _ :: _ :: _, _ => rfl

end Word

namespace State

private theorem xor_left_injective (key : State) : Function.Injective fun s => xor s key := by
  rintro ⟨⟩ ⟨⟩ h
  simpa only [xor, mk.injEq, (Word.xor_left_injective _).eq_iff] using h

private theorem map_injective {f : Word → Word} (hf : Function.Injective f) : Function.Injective (map f) := by
  rintro ⟨⟩ ⟨⟩ h
  simpa only [map, mk.injEq, hf.eq_iff] using h

theorem shiftRows_injective : Function.Injective shiftRows := by
  rintro ⟨⟨⟩, ⟨⟩, ⟨⟩, ⟨⟩⟩ ⟨⟨⟩, ⟨⟩, ⟨⟩, ⟨⟩⟩ h
  simp_all [shiftRows]

theorem scramble_injective : Function.Injective scramble :=
  shiftRows_injective.comp (map_injective (Word.map_injective substitute_injective))

private theorem toOctets_ofOctets {block : Octets} (h : block.length = 16) : (ofOctets block).toOctets = block := by
  have hword (start : Nat) (hstart : start + 4 ≤ 16) :
      (Word.ofOctets (block.drop start)).toOctets = (block.drop start).take 4 := by
    apply Word.toOctets_ofOctets
    rw [List.length_drop]
    omega
  have hjoin (start : Nat) : (block.drop start).take 4 ++ block.drop (start + 4) = block.drop start := by
    rw [← List.drop_drop, List.take_append_drop]
  have hend : block.drop 16 = [] := List.drop_eq_nil_of_le (Nat.le_of_eq h)
  calc (ofOctets block).toOctets
      = (block.drop 0).take 4 ++ ((block.drop 4).take 4 ++ ((block.drop 8).take 4 ++
          ((block.drop 12).take 4 ++ block.drop 16))) := by
        rw [hend, List.append_nil, ← hword 0 (by decide), ← hword 4 (by decide), ← hword 8 (by decide),
          ← hword 12 (by decide)]
        simp only [toOctets, ofOctets, List.append_assoc, List.drop_zero]
    _ = block := by rw [hjoin 12, hjoin 8, hjoin 4, hjoin 0, List.drop_zero]

private theorem toOctets_injective : Function.Injective toOctets := by
  rintro ⟨⟨⟩, ⟨⟩, ⟨⟩, ⟨⟩⟩ ⟨⟨⟩, ⟨⟩, ⟨⟩, ⟨⟩⟩ h
  simpa [toOctets, Word.toOctets, and_assoc] using h

end State

theorem rounds_injective (keys : List State) : Function.Injective (rounds keys) := by
  intro s t h
  induction keys generalizing s t with
  | nil => exact h
  | cons key keys ih =>
    cases keys with
    | nil => exact State.scramble_injective (State.xor_left_injective key h)
    | cons next keys =>
      exact State.scramble_injective (State.map_injective Word.mix_injective (State.xor_left_injective key (ih h)))

theorem encryptState_injective (keys : List State) : Function.Injective (encryptState keys) := by
  intro s t h
  cases keys with
  | nil => exact h
  | cons key keys => exact State.xor_left_injective key (rounds_injective keys h)

/-- Two blocks that are encrypted alike are one. -/
theorem encrypt_inj {key block other : Octets} (hblock : block.length = 16) (hother : other.length = 16) :
    encrypt key block = encrypt key other ↔ block = other := by
  constructor
  · intro h
    have hstate := encryptState_injective (roundKeys key) (State.toOctets_injective h)
    rw [← State.toOctets_ofOctets hblock, hstate, State.toOctets_ofOctets hother]
  · exact congrArg (encrypt key)

end FieldLink.Aes
