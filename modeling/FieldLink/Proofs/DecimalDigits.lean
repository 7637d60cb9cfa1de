import FieldLink.JsonReader
import FieldLink.Proofs.DecimalRounding
import Mathlib.Data.List.Basic

/-!
# Decimal digits and the numbers that they spell

Zeros in front spell nothing; what is left has as many digits as the number.
-/

namespace FieldLink.JsonReader

private theorem isDigit_eq (c : Char) : isDigit c = c.isDigit := by
  have hlow : 48 ≤ c.toNat ↔ c.val ≥ 48 := by
    rw [ge_iff_le, UInt32.le_iff_toNat_le]
    rfl
  have hhigh : c.toNat ≤ 57 ↔ c.val ≤ 57 := by
    rw [UInt32.le_iff_toNat_le]
    rfl
  simp [isDigit, Char.isDigit, hlow, hhigh]

private theorem digitsValue_eq (digits : List Char) : digitsValue digits = Nat.ofDigitChars 10 digits 0 := by
  rw [digitsValue, Nat.ofDigitChars_eq_foldl]
  simp only [Nat.mul_comm 10]
  rfl

theorem digitsValue_append (a b : List Char) :
    digitsValue (a ++ b) = digitsValue a * 10 ^ b.length + digitsValue b := by
  rw [digitsValue_eq, digitsValue_eq, digitsValue_eq, Nat.ofDigitChars_append,
    Nat.ofDigitChars_eq_ofDigitChars_zero, Nat.mul_comm]

@[simp] theorem digitsValue_replicate_zero (n : Nat) : digitsValue (List.replicate n '0') = 0 := by
  rw [digitsValue_eq, Nat.ofDigitChars_replicate_zero, Nat.mul_zero]

@[simp] theorem digitsValue_decimalDigits (n : Nat) : digitsValue (decimalDigits n) = n := by
  rw [digitsValue_eq, decimalDigits, Nat.ofDigitChars_toDigits (by decide) (by decide)]

@[simp] theorem decimalDigits_ne_nil (n : Nat) : decimalDigits n ≠ [] := Nat.toDigits_ne_nil

/-- Nothing but digits. -/
def AllDigits (text : List Char) : Prop := ∀ c ∈ text, isDigit c = true

theorem AllDigits.append {a b : List Char} (ha : AllDigits a) (hb : AllDigits b) : AllDigits (a ++ b) := by
  intro c hc
  rcases List.mem_append.mp hc with hc | hc
  · exact ha c hc
  · exact hb c hc

theorem AllDigits.left {a b : List Char} (h : AllDigits (a ++ b)) : AllDigits a :=
  fun c hc => h c (List.mem_append_left b hc)

theorem AllDigits.take {text : List Char} (h : AllDigits text) (n : Nat) : AllDigits (text.take n) :=
  fun c hc => h c (List.mem_of_mem_take hc)

theorem AllDigits.drop {text : List Char} (h : AllDigits text) (n : Nat) : AllDigits (text.drop n) :=
  fun c hc => h c (List.mem_of_mem_drop hc)

theorem allDigits_nil : AllDigits [] := by
  intro c hc
  cases hc

theorem allDigits_zeros (n : Nat) : AllDigits (List.replicate n '0') := by
  intro c hc
  rw [List.eq_of_mem_replicate hc]
  decide

theorem allDigits_decimalDigits (n : Nat) : AllDigits (decimalDigits n) := by
  intro c hc
  rw [isDigit_eq]
  exact Nat.isDigit_of_mem_toDigits (by decide) (by decide) hc

private theorem digitsValue_lt {digits : List Char} (h : AllDigits digits) :
    digitsValue digits < 10 ^ digits.length := by
  induction digits with
  | nil => decide
  | cons c digits ih =>
    have hc := h c List.mem_cons_self
    simp only [isDigit, decide_eq_true_eq] at hc
    have hrest := ih fun d hd => h d (List.mem_cons_of_mem c hd)
    have hfirst : digitsValue [c] ≤ 9 := by
      simp only [digitsValue, List.foldl_cons, List.foldl_nil]
      omega
    rw [← List.singleton_append, digitsValue_append, List.length_append, List.length_singleton, Nat.pow_add]
    have := Nat.mul_le_mul_right (10 ^ digits.length) hfirst
    omega

/-- A number has as many digits as are written, when the first of them is not zero. -/
theorem digitCount_digitsValue {c : Char} {digits : List Char} (hzero : c ≠ '0')
    (h : AllDigits (c :: digits)) : digitCount (digitsValue (c :: digits)) = digits.length + 1 := by
  have hupper := digitsValue_lt h
  have hc := h c List.mem_cons_self
  simp only [isDigit, decide_eq_true_eq] at hc
  have hne : c.toNat ≠ 48 := fun heq => hzero (Char.toNat_inj.mp heq)
  have hfirst : 1 ≤ digitsValue [c] := by
    simp only [digitsValue, List.foldl_cons, List.foldl_nil]
    omega
  have hlower : 10 ^ digits.length ≤ digitsValue (c :: digits) := by
    rw [← List.singleton_append, digitsValue_append]
    have := Nat.mul_le_mul_right (10 ^ digits.length) hfirst
    omega
  apply Nat.le_antisymm
  · rw [digitCount_le_iff]
    exact hupper
  · by_contra hlt
    have hle : digitCount (digitsValue (c :: digits)) ≤ digits.length := by omega
    rw [digitCount_le_iff] at hle
    omega

theorem digitsValue_dropWhile (digits : List Char) :
    digitsValue (digits.dropWhile (· = '0')) = digitsValue digits := by
  induction digits with
  | nil => rfl
  | cons c digits ih =>
    rw [List.dropWhile_cons]
    split
    · next h =>
      rw [ih, ← List.singleton_append, digitsValue_append, of_decide_eq_true h]
      simp [digitsValue]
    · rfl

theorem length_dropWhile_zero {digits : List Char} (h : AllDigits digits) :
    (digits.dropWhile (· = '0')).length = digitCount (digitsValue digits) := by
  rw [← digitsValue_dropWhile]
  cases hsignificant : digits.dropWhile (· = '0') with
  | nil => simp [digitsValue, digitCount]
  | cons c rest =>
    have hmem : AllDigits (c :: rest) := by
      intro d hd
      rw [← hsignificant] at hd
      exact h d (List.dropWhile_subset _ hd)
    have hzero : c ≠ '0' := by
      have := List.head?_dropWhile_not (· = '0') digits
      rw [hsignificant] at this
      simpa using this
    rw [digitCount_digitsValue hzero hmem, List.length_cons]

private theorem length_decimalDigits {n : Nat} (h : n ≠ 0) : (decimalDigits n).length = digitCount n := by
  have hle {k : Nat} (hk : 0 < k) : (decimalDigits n).length ≤ k ↔ digitCount n ≤ k := by
    rw [decimalDigits, Nat.length_toDigits_le_iff (by decide) hk, digitCount_le_iff]
  apply Nat.le_antisymm
  · exact (hle (digitCount_pos h)).mpr (Nat.le_refl _)
  · exact (hle Nat.length_toDigits_pos).mp (Nat.le_refl _)

theorem head_decimalDigits {n : Nat} (h : n ≠ 0) : (decimalDigits n).head? ≠ some '0' := by
  intro hhead
  have hlength := length_dropWhile_zero (allDigits_decimalDigits n)
  rw [digitsValue_decimalDigits, ← length_decimalDigits h] at hlength
  obtain ⟨rest, hrest⟩ : ∃ rest, decimalDigits n = '0' :: rest := by
    cases hdigits : decimalDigits n with
    | nil => simp [hdigits] at hhead
    | cons c rest => exact ⟨rest, by simpa [hdigits] using hhead⟩
  rw [hrest, List.dropWhile_cons, if_pos (by decide)] at hlength
  have := (List.dropWhile_sublist (l := rest) (· = '0')).length_le
  simp only [List.length_cons] at hlength
  omega

end FieldLink.JsonReader
